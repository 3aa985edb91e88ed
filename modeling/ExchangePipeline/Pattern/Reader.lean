/-
  ExchangePipeline/Pattern/Reader.lean
  ====================================
  **Reading regular expressions.**

  Each reader takes the characters that are left and returns what it has read
  with the characters behind it, or nothing when the text is no pattern.

  A reader is told whether blanks and comments are passed over: the flag `x` lets
  a pattern hold blanks, and comments from `#` to the end of a line.

  Braces would count repetitions.  The text of a pattern comes out of the braces
  of a filter and holds no closing one, so an opening brace that is neither
  escaped nor in brackets is a fault.
-/
import ExchangePipeline.Pattern
import ExchangePipeline.Text.Alphanumeric
import ExchangePipeline.Text.Blank
import ExchangePipeline.Text.Hexadecimal

namespace ExchangePipeline

namespace Pattern

/-! ### Blanks and comments -/

/-- Drops leading blanks and comments. -/
def dropComments (inComment : Bool) : List Char → List Char
  | [] => []
  | c :: rest =>
    if inComment then dropComments (c ≠ '\n') rest
    else if Text.isBlank c then dropComments false rest
    else if c = '#' then dropComments true rest
    else c :: rest

/-- Drops what is passed over. -/
def skip (blanks : Bool) (cs : List Char) : List Char :=
  if blanks then dropComments false cs else cs

/-! ### Flags and groups -/

/-- The flag of a letter. -/
def Flag.ofChar? : Char → Option Flag
  | 'i' => some .ignoreCase
  | 'm' => some .multiLine
  | 's' => some .dotAll
  | 'U' => some .swapGreed
  | 'u' => some .unicode
  | 'R' => some .carriageReturn
  | 'x' => some .ignoreBlanks
  | _ => none

/-- Whether flags end with this character. -/
def endsFlags (c : Char) : Bool :=
  c = ':' || c = ')'

/-- Reads flags, up to the character that ends them.  Each may come once.  Behind one dash, which
    some flag must follow, they are switched off. -/
def readFlags (on : Bool) (flags : Flags) : List Char → Option (Flags × List Char)
  | [] => none
  | c :: rest =>
    if endsFlags c then some (flags, c :: rest)
    else if c = '-' then
      if on && !rest.head?.any endsFlags then readFlags false flags rest else none
    else
      match Flag.ofChar? c with
      | some flag =>
        if (flags.lookup flag).isSome then none else readFlags on (flags ++ [(flag, on)]) rest
      | none => none

/-- Whether the name of a group may begin with this character. -/
def isNameStart (c : Char) : Bool :=
  c = '_' || Text.isAlphabetic c

/-- Whether the name of a group may go on with this character. -/
def isNamePart (c : Char) : Bool :=
  c = '_' || c = '.' || c = '[' || c = ']' || Text.isAlphanumeric c

/-- Reads the name of a group and the `>` behind it. -/
def readName (cs : List Char) : Option (String × List Char) :=
  match cs.takeWhile (· ≠ '>'), cs.dropWhile (· ≠ '>') with
  | first :: more, _ :: rest =>
    if isNameStart first && more.all isNamePart then some (String.ofList (first :: more), rest)
    else none
  | _, _ => none

/-- What an opening parenthesis opens. -/
inductive Opening where
  | group (name : Option String) (flags : Flags)
  | switch (flags : Flags)

/-- Reads the name of a group that has one. -/
def readNamedGroup (cs : List Char) : Option (Opening × List Char) :=
  (readName cs).map fun (name, rest) => (.group (some name) [], rest)

/-- Reads what stands behind an opening parenthesis.  Flags that are closed at once are a switch. -/
def readOpening : List Char → Option (Opening × List Char)
  | '?' :: 'P' :: '<' :: rest => readNamedGroup rest
  | '?' :: '<' :: rest => readNamedGroup rest
  | '?' :: rest =>
    match readFlags true [] rest with
    | some (flags, ':' :: rest) => some (.group none flags, rest)
    | some (flags, _ :: rest) => if flags.isEmpty then none else some (.switch flags, rest)
    | _ => none
  | rest => some (.group none [], rest)

/-! ### Escapes -/

/-- Reads so many hexadecimal digits. -/
def readDigits (blanks : Bool) : Nat → Nat → List Char → Option (Nat × List Char)
  | 0, n, cs => some (n, cs)
  | count + 1, n, cs =>
    match skip blanks cs with
    | c :: rest =>
      (Text.hexDigit? c).bind fun digit => readDigits blanks count (16 * n + digit) rest
    | [] => none

/-- Reads the code point of a character, in so many hexadecimal digits. -/
def readCodePoint (blanks : Bool) (width : Nat) (cs : List Char) : Option (Pattern × List Char) :=
  (readDigits blanks width 0 cs).bind fun (n, rest) =>
    if n.isValidChar then some (.literal ⟨Char.ofNat n, width = 2⟩, rest) else none

/-- Whether a backslash makes this character stand for itself: the signs of ASCII do. -/
def isEscapable (c : Char) : Bool :=
  c.toNat < 0x80 && !c.isAlphanum

/-- Reads what stands behind a backslash.  Digits would refer to groups, and `p` to properties of
    characters; neither is known. -/
def readEscape (blanks : Bool) : List Char → Option (Pattern × List Char)
  | [] => none
  | c :: rest =>
    match c with
    | 'x' => readCodePoint blanks 2 rest
    | 'u' => readCodePoint blanks 4 rest
    | 'U' => readCodePoint blanks 8 rest
    | 'd' | 's' | 'w' => some (.set (.shorthand false), rest)
    | 'D' | 'S' | 'W' => some (.set (.shorthand true), rest)
    | 'A' | 'z' => some (.anchor, rest)
    | 'b' | 'B' | '<' | '>' => some (.wordBoundary, rest)
    | 'a' => some (.literal ⟨'\x07', false⟩, rest)
    | 't' => some (.literal ⟨'\t', false⟩, rest)
    | 'n' => some (.literal ⟨'\n', false⟩, rest)
    | 'v' => some (.literal ⟨'\x0b', false⟩, rest)
    | 'f' => some (.literal ⟨'\x0c', false⟩, rest)
    | 'r' => some (.literal ⟨'\x0d', false⟩, rest)
    | c => if isEscapable c then some (.literal ⟨c, false⟩, rest) else none

/-! ### Sets in brackets -/

/-- The classes with a name. -/
def classNames : List String :=
  ["alnum", "alpha", "ascii", "blank", "cntrl", "digit", "graph", "lower", "print", "punct",
    "space", "upper", "word", "xdigit"]

/-- Reads a class with a name, behind its bracket. -/
def readNamed (cs : List Char) : Option (CharSet × List Char) :=
  match cs with
  | ':' :: rest =>
    let negated := rest.head? = some '^'
    let rest := if negated then rest.drop 1 else rest
    match rest.dropWhile (· ≠ ':') with
    | ':' :: ']' :: behind =>
      if String.ofList (rest.takeWhile (· ≠ ':')) ∈ classNames then some (.named negated, behind)
      else none
    | _ => none
  | _ => none

/-- Reads a character or an escape between brackets. -/
def readSetChar (blanks : Bool) : List Char → Option (CharSet × List Char)
  | [] => none
  | '\\' :: rest =>
    match readEscape blanks rest with
    | some (.literal l, rest) => some (.literal l, rest)
    | some (.set s, rest) => some (s, rest)
    | _ => none
  | c :: rest => some (.literal ⟨c, false⟩, rest)

/-- The character that decides about a dash before it; here the sign of a comment is passed over
    and not the comment. -/
def behindDash (blanks : Bool) (cs : List Char) : Option Char :=
  if blanks then
    match cs.dropWhile Text.isBlank with
    | '#' :: rest => (rest.dropWhile Text.isBlank).head?
    | rest => rest.head?
  else cs.head?

/-- Reads a character between brackets, or a range of them.  A dash before a bracket or another
    dash makes no range. -/
def readRange (blanks : Bool) (cs : List Char) : Option (CharSet × List Char) := do
  let (low, rest) ← readSetChar blanks cs
  match skip blanks rest with
  | '-' :: behind =>
    if behindDash blanks behind = some ']' ∨ behindDash blanks behind = some '-' then
      return (low, '-' :: behind)
    let (high, rest) ← readSetChar blanks (skip blanks behind)
    match low, high with
    | .literal low, .literal high =>
      if low.char ≤ high.char then return (.range low high, rest) else none
    | _, _ => none
  | rest => return (low, rest)

/-- A set as far as its brackets have been read. -/
structure OpenSet where
  /-- What stands before the last operator. -/
  left : Option CharSet := none
  /-- The items behind it, the last one first. -/
  items : List CharSet := []
  /-- Nothing but dashes has come. -/
  atStart : Bool := true

namespace OpenSet

/-- Adds an item. -/
def add (opened : OpenSet) (item : CharSet) : OpenSet :=
  { opened with items := item :: opened.items, atStart := false }

/-- The set, with nothing more to come. -/
def close (opened : OpenSet) : CharSet :=
  let right := match opened.items with
    | [item] => item
    | items => .union items.reverse
  match opened.left with
  | some left => .combined left right
  | none => right

end OpenSet

/-- Reads the sign of negation at the beginning of a set. -/
def readNegation (blanks : Bool) (cs : List Char) : Bool × List Char :=
  match skip blanks cs with
  | '^' :: rest => (true, rest)
  | rest => (false, rest)

/-- Reads a set up to the bracket that closes it.  First of all come dashes, which stand for
    themselves, or a bracket, which does so too.  Operators take what has come so far as their left
    side.  Each round reads a character, so their number is enough `fuel`. -/
def readSet (blanks : Bool) : Nat → OpenSet → List Char → Option (CharSet × List Char)
  | 0, _, _ => none
  | fuel + 1, opened, cs =>
    let combine (rest : List Char) :=
      readSet blanks fuel { left := some opened.close, atStart := false } rest
    match skip blanks cs, opened.atStart, opened.items.isEmpty with
    | [], _, _ => none
    | '-' :: rest, true, _ =>
      readSet blanks fuel { opened with items := .literal ⟨'-', false⟩ :: opened.items } rest
    | ']' :: rest, true, true => readSet blanks fuel (opened.add (.literal ⟨']', false⟩)) rest
    | ']' :: rest, _, _ => some (opened.close, rest)
    | '[' :: rest, _, _ =>
      match readNamed rest with
      | some (item, rest) => readSet blanks fuel (opened.add item) rest
      | none =>
        let (negated, rest) := readNegation blanks rest
        (readSet blanks fuel {} rest).bind fun (content, rest) =>
          readSet blanks fuel (opened.add (.bracketed negated content)) rest
    | '&' :: '&' :: rest, _, _ => combine rest
    | '-' :: '-' :: rest, _, _ => combine rest
    | '~' :: '~' :: rest, _, _ => combine rest
    | cs, _, _ =>
      (readRange blanks cs).bind fun (item, rest) => readSet blanks fuel (opened.add item) rest

/-! ### Patterns -/

/-- A group as far as it has been read. -/
structure OpenGroup where
  /-- The branches before the last bar, the last one first. -/
  branches : List Pattern := []
  /-- The parts behind it, the last one first. -/
  parts : List Pattern := []

namespace OpenGroup

/-- Adds a part. -/
def add (opened : OpenGroup) (part : Pattern) : OpenGroup :=
  { opened with parts := part :: opened.parts }

/-- The last branch. -/
def branch (opened : OpenGroup) : Pattern :=
  match opened.parts with
  | [part] => part
  | parts => .sequence parts.reverse

/-- Begins another branch. -/
def alternate (opened : OpenGroup) : OpenGroup :=
  { branches := opened.branch :: opened.branches }

/-- The pattern, with nothing more to come. -/
def close (opened : OpenGroup) : Pattern :=
  match opened.branches with
  | [] => opened.branch
  | branches => .choice (opened.branch :: branches).reverse

/-- Repeats the last part; there has to be one, and it must not be a switch. -/
def repeatLast (opened : OpenGroup) : Option OpenGroup :=
  match opened.parts with
  | [] => none
  | .switch _ :: _ => none
  | part :: parts => some { opened with parts := .repeated part :: parts }

end OpenGroup

/-- Whether blanks are passed over behind flags. -/
def blanksBehind (flags : Flags) (blanks : Bool) : Bool :=
  (flags.lookup .ignoreBlanks).getD blanks

/-- Reads up to the parenthesis that closes the group, or to the end.  Each round reads a character,
    so their number, and one round for the end, is enough `fuel`. -/
def readGroup (blanks : Bool) : Nat → OpenGroup → List Char → Option (Pattern × List Char)
  | 0, _, _ => none
  | fuel + 1, opened, cs =>
    match skip blanks cs with
    | [] => some (opened.close, [])
    | c :: rest =>
      let goOn (part : Pattern) (rest : List Char) := readGroup blanks fuel (opened.add part) rest
      match c with
      | ')' => some (opened.close, ')' :: rest)
      | '|' => readGroup blanks fuel opened.alternate rest
      | '(' =>
        match readOpening (skip blanks rest) with
        | none => none
        | some (.switch flags, rest) =>
          readGroup (blanksBehind flags blanks) fuel (opened.add (.switch flags)) rest
        | some (.group name flags, rest) =>
          match readGroup (blanksBehind flags blanks) fuel {} rest with
          | some (body, ')' :: rest) => goOn (.group name flags body) rest
          | _ => none
      | '[' =>
        let (negated, rest) := readNegation blanks rest
        (readSet blanks fuel {} rest).bind fun (content, rest) =>
          goOn (.set (.bracketed negated content)) rest
      | '*' | '+' | '?' =>
        -- a question mark right behind makes the repetition a lazy one
        let rest := if rest.head? = some '?' then rest.drop 1 else rest
        opened.repeatLast.bind fun opened => readGroup blanks fuel opened rest
      | '{' => none
      | '\\' => (readEscape blanks rest).bind fun (part, rest) => goOn part rest
      | '.' => goOn .anyChar rest
      | '^' | '$' => goOn .anchor rest
      | c => goOn (.literal ⟨c, false⟩) rest

/-- Reads a pattern from a text that holds nothing else. -/
def read? (s : List Char) : Option Pattern :=
  match readGroup false (s.length + 1) {} s with
  | some (p, []) => some p
  | _ => none

/-- Whether a text is a pattern that can be used. -/
def isValid (s : List Char) : Bool :=
  (read? s).any isUsable

end Pattern

end ExchangePipeline
