/-
  ExchangePipeline/Binary64/Decimal.lean
  ======================================
  **Decimal texts of floating-point numbers.**

  Reading takes a significand and a power of ten, rounds each to a number of its
  own and multiplies or divides (`ofDecimal?`): two roundings, so a long decimal
  may end one place beside the nearest number.

  Writing looks for the fewest digits that read back (`shortest`): for one, two,
  … seventeen digits it tests the two neighbours of the number on that decimal
  grid, in exact arithmetic, and takes the first grid on which one of them lies
  between the two midpoints around the number.  `text` then places the point.
-/
import ExchangePipeline.Binary64

namespace ExchangePipeline

namespace Binary64

/-! ### Reading -/

/-- The largest power of ten that is a finite number. -/
def maxPower : Nat := 308

/-- The number nearest to `10 ^ k`. -/
def powerOfTen (k : Nat) : Binary64 :=
  nearest false (Nat.pow 10 k) 1

/-- Divides by powers of ten, at most `10 ^ 308` at a time, until the exponent is used up or
    nothing is left of the number. -/
def divideByTens : Nat → Binary64 → Nat → Binary64
  | 0, x, _ => x
  | steps + 1, x, exponent =>
    if exponent ≤ maxPower then x.div (powerOfTen exponent)
    else if x.isZero then x
    else divideByTens steps (x.div (powerOfTen maxPower)) (exponent - maxPower)

/-- `significand · 10 ^ exponent`, where the significand and the power are rounded first; `none`
    beyond the finite numbers. -/
def ofDecimal? (negative : Bool) (significand : Nat) (exponent : Int) : Option Binary64 :=
  let x := nearest false significand 1
  let sign (y : Binary64) : Binary64 := if negative then y.neg else y
  if 0 ≤ exponent then
    if exponent.toNat ≤ maxPower then
      let y := x.mul (powerOfTen exponent.toNat)
      if y.isFinite then some (sign y) else none
    else if x.isZero then some (sign x)
    else none
  else
    some (sign (divideByTens 8 x (-exponent).toNat))

/-! ### Writing -/

/-- A positive decimal `digits · 10 ^ exponent`. -/
structure Decimal where
  digits : Nat
  exponent : Int
deriving DecidableEq, Repr

/-- `m · 2 ^ q / 10 ^ e` as a fraction. -/
def onGrid (m : Nat) (q e : Int) : Nat × Nat :=
  (m * Nat.pow 2 q.toNat * Nat.pow 10 (-e).toNat, Nat.pow 2 (-q).toNat * Nat.pow 10 e.toNat)

/-- The midpoints to the neighbours of `m · 2 ^ q`, in quarters of the last place.  Below a power
    of two the neighbour is half as far away. -/
def midpoints (m : Nat) (q : Int) : Nat × Nat :=
  (if m = Nat.pow 2 52 ∧ minExponent < q then 4 * m - 1 else 4 * m - 2, 4 * m + 2)

/-- Whether `d · 10 ^ e` reads back as `m · 2 ^ q`: it lies between the midpoints, or on one of
    them when `m` is even. -/
def readsBack (m : Nat) (q : Int) (d : Nat) (e : Int) : Bool :=
  let (lo, hi) := midpoints m q
  let (loN, loD) := onGrid lo (q - 2) e
  let (hiN, hiD) := onGrid hi (q - 2) e
  if m % 2 = 0 then loN ≤ d * loD && d * hiD ≤ hiN else loN < d * loD && d * hiD < hiN

/-- The nearer of the two neighbours of `m · 2 ^ q` on the grid of `10 ^ e` that read back; of two
    equally near ones the even one. -/
def onGrid? (m : Nat) (q e : Int) : Option Nat :=
  let (n, d) := onGrid m q e
  let low := n / d
  match readsBack m q low e, readsBack m q (low + 1) e with
  | true, true => some (divEven n d)
  | true, false => some low
  | false, true => some (low + 1)
  | false, false => none

/-- The decimal exponent of the leading digit of `m · 2 ^ q`, tried from `guess` downwards. -/
def leadingPlace (m : Nat) (q : Int) : Nat → Int → Int
  | 0, guess => guess
  | steps + 1, guess =>
    let (n, d) := onGrid m q guess
    if d ≤ n then guess else leadingPlace m q steps (guess - 1)

/-- Moves trailing zeros of the digits into the exponent. -/
def Decimal.strip : Nat → Decimal → Decimal
  | 0, d => d
  | steps + 1, d =>
    if d.digits % 10 = 0 ∧ d.digits ≠ 0 then strip steps ⟨d.digits / 10, d.exponent + 1⟩ else d

/-- Tries the grids of more and more digits. -/
def searchGrids (m : Nat) (q place : Int) : Nat → Nat → Decimal
  | 0, _ => ⟨m, 0⟩
  | steps + 1, width =>
    let e := place - (width : Int)
    match onGrid? m q e with
    | some d => Decimal.strip 20 ⟨d, e⟩
    | none => searchGrids m q place steps (width + 1)

/-- The fewest digits that read back as a finite, non-zero number. -/
def shortest (x : Binary64) : Decimal :=
  let (m, q) := x.parts
  let guess : Int := ((Nat.log2 m : Int) + q + 1) * 30103 / 100000 + 1
  searchGrids m q (leadingPlace m q 6 guess) 17 0

/-- The zeros of a decimal text. -/
def zeros (n : Nat) : String := String.ofList (List.replicate n '0')

/-- Places the point: positional below `10 ^ 16` and down to `10 ^ -5`, beyond with an exponent that
    always carries its sign. -/
def Decimal.text (d : Decimal) : String :=
  let digits := Nat.toDigits 10 d.digits
  let point : Int := (digits.length : Int) + d.exponent
  if 0 ≤ d.exponent ∧ point ≤ 16 then
    String.ofList digits ++ zeros d.exponent.toNat ++ ".0"
  else if 0 < point ∧ point ≤ 16 then
    String.ofList (digits.take point.toNat) ++ "." ++ String.ofList (digits.drop point.toNat)
  else if -5 < point ∧ point ≤ 0 then
    "0." ++ zeros (-point).toNat ++ String.ofList digits
  else
    let mantissa := match digits with
      | first :: second :: more => first :: '.' :: second :: more
      | short => short
    let e := point - 1
    let sign := if e < 0 then "-" else "+"
    String.ofList mantissa ++ "e" ++ sign ++ String.ofList (Nat.toDigits 10 e.natAbs)

/-- The text of a finite number. -/
def text (x : Binary64) : String :=
  let sign := if x.isNegative then "-" else ""
  if x.isZero then sign ++ "0.0" else sign ++ x.shortest.text

end Binary64

end ExchangePipeline
