/-
  ExchangePipeline/Text/Hexadecimal.lean
  ======================================
  **Hexadecimal digits.**
-/

namespace ExchangePipeline

namespace Text

/-- The value of a hexadecimal digit in either case. -/
def hexDigit? (c : Char) : Option Nat :=
  if c.isDigit then some (c.toNat - '0'.toNat)
  else if 'a' ≤ c ∧ c ≤ 'f' then some (c.toNat - 'a'.toNat + 10)
  else if 'A' ≤ c ∧ c ≤ 'F' then some (c.toNat - 'A'.toNat + 10)
  else none

/-- A lower-case hexadecimal digit. -/
def hexChar (n : Nat) : Char :=
  if n < 10 then Char.ofNat (n + 48) else Char.ofNat (n + 87)

/-- A digit reads back as the number that it was written for. -/
theorem hexDigit?_hexChar {n : Nat} (h : n < 16) : hexDigit? (hexChar n) = some n := by
  have all : ∀ m : Fin 16, hexDigit? (hexChar m.val) = some m.val := by decide
  exact all ⟨n, h⟩

end Text

end ExchangePipeline
