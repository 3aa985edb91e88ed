/-
  ExchangePipeline/Json/Reader.lean
  =================================
  **Reading JSON text.**

  `Json.read` never fails: it returns the tree as far as the text goes, and
  whether nothing but blanks follows it.

  Numbers keep at most the digits that fit in 64 bits.  An integer text without
  fraction and exponent is an integer if it fits in 64 bits, signed or unsigned,
  and otherwise, like every other number text and like `-0`, a binary number.
-/
import ExchangePipeline.Json
import ExchangePipeline.Binary64.Decimal
import ExchangePipeline.Text.Hexadecimal

namespace ExchangePipeline

namespace Json

/-- The blanks between tokens. -/
def isBlank (c : Char) : Bool :=
  c = ' ' || c = '\n' || c = '\t' || c = '\x0d'

/-- Drops leading blanks. -/
def skipBlanks (cs : List Char) : List Char :=
  cs.dropWhile isBlank

/-! ### Numbers -/

/-- A number text, cut into its pieces. -/
structure NumberText where
  negative : Bool
  whole : List Char
  /-- The digits behind the point, if there is one. -/
  fraction : Option (List Char)
  /-- Sign and digits of the exponent, if there is one. -/
  exponent : Option (Bool × List Char)

/-- The value of a decimal digit. -/
def digitValue (c : Char) : Nat :=
  c.toNat - '0'.toNat

/-- Takes up digits while the number stays below `2 ^ 64`; returns it and the digits left over. -/
def absorb : Nat → List Char → Nat × List Char
  | n, [] => (n, [])
  | n, c :: rest =>
    if 10 * n + digitValue c < Nat.pow 2 64 then absorb (10 * n + digitValue c) rest
    else (n, c :: rest)

/-- The number that digits spell. -/
def digitsValue (digits : List Char) : Nat :=
  digits.foldl (fun n c => 10 * n + digitValue c) 0

/-- The number that a number text stands for. -/
def NumberText.value (t : NumberText) : Number :=
  let (wholePart, dropped) := absorb 0 t.whole
  match t.fraction, t.exponent, dropped with
  | none, none, [] =>
    if t.negative then
      if wholePart = 0 ∨ Nat.pow 2 63 < wholePart then .binary (Binary64.nearest true wholePart 1)
      else .integer (-wholePart)
    else .integer wholePart
  | fraction, exponent, dropped =>
    let digits := fraction.getD []
    let (significand, unused) := absorb wholePart digits
    let shift : Int := dropped.length - (digits.length - unused.length : Nat)
    let ofDecimal (e : Int) : Number :=
      match Binary64.ofDecimal? t.negative significand e with
      | some x => .binary x
      | none => .outOfRange
    match exponent with
    | none => ofDecimal shift
    | some (negative, digits) =>
      let e := digitsValue digits
      if Nat.pow 2 31 ≤ e then
        if significand ≠ 0 ∧ !negative then .outOfRange
        else .binary (Binary64.nearest t.negative 0 1)
      else ofDecimal (if negative then shift - e else shift + e)

/-- Splits off the digits at the front, of which there must be one. -/
def someDigits? (cs : List Char) : Option (List Char × List Char) :=
  match cs.takeWhile Char.isDigit with
  | [] => none
  | digits => some (digits, cs.dropWhile Char.isDigit)

/-- Splits off the exponent, if one begins here. -/
def readExponent? : List Char → Option (Option (Bool × List Char) × List Char)
  | c :: cs =>
    if c = 'e' || c = 'E' then
      let (negative, cs) := match cs with
        | '-' :: rest => (true, rest)
        | '+' :: rest => (false, rest)
        | rest => (false, rest)
      (someDigits? cs).map fun (digits, rest) => (some (negative, digits), rest)
    else some (none, c :: cs)
  | [] => some (none, [])

/-- Splits off the fraction, if one begins here. -/
def readFraction? : List Char → Option (Option (List Char) × List Char)
  | '.' :: cs => (someDigits? cs).map fun (digits, rest) => (some digits, rest)
  | cs => some (none, cs)

/-- Reads a number: no leading zero before another digit, a digit on each side of the point. -/
def readNumber? (cs : List Char) : Option (Number × List Char) := do
  let (negative, cs) := match cs with
    | '-' :: rest => (true, rest)
    | rest => (false, rest)
  let (whole, rest) ← someDigits? cs
  if 1 < whole.length ∧ whole.head? = some '0' then none
  let (fraction, rest) ← readFraction? rest
  let (exponent, rest) ← readExponent? rest
  return (NumberText.value { negative, whole, fraction, exponent }, rest)

/-! ### Strings -/

/-- A piece of a string: a character, or a 16-bit unit written as an escape. -/
inductive StringPiece where
  | char (c : Char)
  | unit (n : Nat)

/-- The number that four hexadecimal digits spell. -/
def hexUnit? (a b c d : Char) : Option Nat := do
  let high := (← Text.hexDigit? a) * 16 + (← Text.hexDigit? b)
  return (high * 16 + (← Text.hexDigit? c)) * 16 + (← Text.hexDigit? d)

/-- The character that a one-letter escape stands for. -/
def shortEscape? : Char → Option Char
  | '"' => some '"'
  | '\\' => some '\\'
  | '/' => some '/'
  | 'b' => some '\x08'
  | 'f' => some '\x0c'
  | 'n' => some '\n'
  | 'r' => some '\x0d'
  | 't' => some '\t'
  | _ => none

/-- Reads up to the closing quote; `none` at an unknown escape, a control character or the end. -/
def readPieces? : List Char → Option (List StringPiece × List Char)
  | [] => none
  | '"' :: rest => some ([], rest)
  | '\\' :: 'u' :: a :: b :: c :: d :: rest => do
    let unit ← hexUnit? a b c d
    let (pieces, rest) ← readPieces? rest
    return (.unit unit :: pieces, rest)
  | '\\' :: c :: rest => do
    let c ← shortEscape? c
    let (pieces, rest) ← readPieces? rest
    return (.char c :: pieces, rest)
  | c :: rest => do
    if c < ' ' then none
    let (pieces, rest) ← readPieces? rest
    return (.char c :: pieces, rest)

/-- Puts the pieces together: a high half must be followed by a low one, and a low half must
    follow a high one. -/
def assemble? : List StringPiece → Option (List Char)
  | [] => some []
  | .char c :: rest => (assemble? rest).map (c :: ·)
  | .unit high :: .unit low :: rest =>
    if 0xD800 ≤ high ∧ high < 0xDC00 then
      if 0xDC00 ≤ low ∧ low < 0xE000 then
        (assemble? rest).map (Char.ofNat (0x10000 + (high - 0xD800) * 0x400 + (low - 0xDC00)) :: ·)
      else none
    else if 0xDC00 ≤ high ∧ high < 0xE000 then none
    else (assemble? (.unit low :: rest)).map (Char.ofNat high :: ·)
  | .unit n :: rest =>
    if 0xD800 ≤ n ∧ n < 0xE000 then none else (assemble? rest).map (Char.ofNat n :: ·)

/-- Reads a string behind its opening quote. -/
def readString? (cs : List Char) : Option (Option String × List Char) := do
  let (pieces, rest) ← readPieces? cs
  return ((assemble? pieces).map String.ofList, rest)

/-! ### Values -/

/-- Reads the rest of a fixed word. -/
def readWord (word : List Char) (value : Json) (cs : List Char) : Json × Option (List Char) :=
  if word.isPrefixOf cs then (value, some (cs.drop word.length)) else (.broken, none)

mutual

/-- Reads one value; with it comes what follows, unless reading stopped inside it. -/
def readValue : Nat → List Char → Json × Option (List Char)
  | 0, _ => (.broken, none)
  | fuel + 1, cs =>
    match skipBlanks cs with
    | [] => (.broken, none)
    | '"' :: rest =>
      match readString? rest with
      | some (s, rest) => (.string s, some rest)
      | none => (.broken, none)
    | '[' :: rest =>
      match skipBlanks rest with
      | ']' :: rest => (.array [] true, some rest)
      | rest =>
        let (items, rest) := readItems fuel rest
        (.array items rest.isSome, rest)
    | '\x7b' :: rest =>
      match skipBlanks rest with
      | '\x7d' :: rest => (.object [] true, some rest)
      | rest =>
        let (fields, rest) := readFields fuel rest
        (.object fields rest.isSome, rest)
    | 'n' :: rest => readWord ['u', 'l', 'l'] .null rest
    | 't' :: rest => readWord ['r', 'u', 'e'] (.bool true) rest
    | 'f' :: rest => readWord ['a', 'l', 's', 'e'] (.bool false) rest
    | rest =>
      match readNumber? rest with
      | some (n, rest) => (.number n, some rest)
      | none => (.broken, none)

/-- Reads the items of an array up to its closing bracket. -/
def readItems : Nat → List Char → List Json × Option (List Char)
  | 0, _ => ([.broken], none)
  | fuel + 1, cs =>
    match readValue fuel cs with
    | (item, none) => ([item], none)
    | (item, some rest) =>
      match skipBlanks rest with
      | ',' :: rest =>
        let (items, rest) := readItems fuel rest
        (item :: items, rest)
      | ']' :: rest => ([item], some rest)
      | _ => ([item], none)

/-- Reads the fields of an object up to its closing brace. -/
def readFields : Nat → List Char → List (Option String × Json) × Option (List Char)
  | 0, _ => ([], none)
  | fuel + 1, cs =>
    match skipBlanks cs with
    | '"' :: rest =>
      match readString? rest with
      | none => ([], none)
      | some (key, rest) =>
        match skipBlanks rest with
        | ':' :: rest =>
          match readValue fuel rest with
          | (value, none) => ([(key, value)], none)
          | (value, some rest) =>
            match skipBlanks rest with
            | ',' :: rest =>
              let (fields, rest) := readFields fuel rest
              ((key, value) :: fields, rest)
            | '\x7d' :: rest => ([(key, value)], some rest)
            | _ => ([(key, value)], none)
        | _ => ([(key, .broken)], none)
    | _ => ([], none)

end

/-- Reads a text: the tree, and whether the text ends with it. -/
def read (s : String) : Json × Bool :=
  let cs := s.toList
  match readValue (2 * cs.length + 2) cs with
  | (value, none) => (value, false)
  | (value, some rest) => (value, (skipBlanks rest).isEmpty)

end Json

end ExchangePipeline
