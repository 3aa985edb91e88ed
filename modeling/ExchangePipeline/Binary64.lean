/-
  ExchangePipeline/Binary64.lean
  ==============================
  **Binary floating-point numbers of 64 bits, in exact integer arithmetic.**

  A number is its word: a sign, an eleven-bit exponent and a 52-bit fraction.
  Everything the library does with such numbers (reading a decimal, writing the
  shortest one) goes through two functions: `nearest`, which rounds a quotient
  of naturals to the nearest number, ties to the even one, and `parts`, which
  gives a finite number back as `m · 2 ^ q`.
-/

namespace ExchangePipeline

/-- A 64-bit binary floating-point number, as its word. -/
structure Binary64 where
  bits : UInt64
deriving DecidableEq, Repr, Inhabited

namespace Binary64

/-- The least exponent of the last place: that of the subnormal numbers. -/
def minExponent : Int := -1074

/-- `num / den`, rounded to the nearest natural, a half to the even one. -/
def divEven (num den : Nat) : Nat :=
  let q := num / den
  let r := num % den
  if 2 * r < den then q
  else if den < 2 * r then q + 1
  else q + q % 2

/-- `num / den · 2 ^ (-exponent)` as a fraction. -/
def scale (num den : Nat) (exponent : Int) : Nat × Nat :=
  if 0 ≤ exponent then (num, den * Nat.pow 2 exponent.toNat)
  else (num * Nat.pow 2 (-exponent).toNat, den)

/-- The exponent of the last of 53 binary places of `num / den`, which is positive. -/
def placeOf (num den : Nat) : Int :=
  let guess : Int := (Nat.log2 num : Int) - (Nat.log2 den : Int) - 53
  let fraction := scale num den guess
  max minExponent (if fraction.1 < fraction.2 * Nat.pow 2 53 then guess else guess + 1)

/-- The word of the largest exponent with an empty fraction: infinity. -/
def infinityWord : Nat := 2047 * Nat.pow 2 52

/-- The word, without its sign, of the number nearest to `num / den`.  A significand rounded up
    to `2 ^ 53` carries into the exponent, and an exponent beyond the range gives infinity. -/
def nearestWord (num den : Nat) : Nat :=
  if num = 0 then 0
  else
    let place := placeOf num den
    let (n, d) := scale num den place
    let m := divEven n d
    if m < Nat.pow 2 52 then m
    else min infinityWord ((place + 1075).toNat * Nat.pow 2 52 + (m - Nat.pow 2 52))

/-- The number nearest to `num / den`, negated when `negative`; ties go to the even one. -/
def nearest (negative : Bool) (num den : Nat) : Binary64 :=
  ⟨UInt64.ofNat (nearestWord num den + if negative then Nat.pow 2 63 else 0)⟩

/-- Whether the sign bit is set. -/
def isNegative (x : Binary64) : Bool :=
  Nat.pow 2 63 ≤ x.bits.toNat

/-- The word without its sign. -/
def magnitude (x : Binary64) : Nat :=
  x.bits.toNat % Nat.pow 2 63

/-- Whether the number is neither an infinity nor a NaN. -/
def isFinite (x : Binary64) : Bool :=
  x.magnitude < infinityWord

/-- Whether the number is zero, of either sign. -/
def isZero (x : Binary64) : Bool :=
  x.magnitude = 0

/-- The same number with the other sign. -/
def neg (x : Binary64) : Binary64 :=
  ⟨x.bits ^^^ UInt64.ofNat (Nat.pow 2 63)⟩

/-- Significand and exponent of a finite number: its magnitude is `m · 2 ^ q`. -/
def parts (x : Binary64) : Nat × Int :=
  let e : Nat := x.magnitude / Nat.pow 2 52
  let f : Nat := x.magnitude % Nat.pow 2 52
  if e = 0 then (f, minExponent) else (Nat.pow 2 52 + f, (e : Int) - 1075)

/-- The magnitude of a finite number as a fraction. -/
def ratio (x : Binary64) : Nat × Nat :=
  let (m, q) := x.parts
  if 0 ≤ q then (m * Nat.pow 2 q.toNat, 1) else (m, Nat.pow 2 (-q).toNat)

/-- The product of two finite numbers, rounded. -/
def mul (x y : Binary64) : Binary64 :=
  nearest (x.isNegative != y.isNegative) (x.ratio.1 * y.ratio.1) (x.ratio.2 * y.ratio.2)

/-- The quotient of two finite numbers, the second not zero, rounded. -/
def div (x y : Binary64) : Binary64 :=
  nearest (x.isNegative != y.isNegative) (x.ratio.1 * y.ratio.2) (x.ratio.2 * y.ratio.1)

/-- The number nearest to an integer. -/
def ofInt (i : Int) : Binary64 :=
  nearest (i < 0) i.natAbs 1

end Binary64

end ExchangePipeline
