/-
  ExchangePipeline/Proofs/Json/Scalars.lean
  =========================================
  **A printed integer or string is read as what it was printed from.**

  An integer is its decimal digits, with a sign in front if it is negative.  The
  digits end where the next character can not belong to a number (`EndsNumber`),
  and they are taken up without a loss as long as the number fits in 64 bits.

  A string is read piece by piece, and every printed character makes one piece: a
  control character without a short escape comes as the unit that its four digits
  spell, every other character as itself.
-/
import ExchangePipeline.Json.Printer
import ExchangePipeline.Json.Reader

namespace ExchangePipeline

namespace Json

/-! ### Digits -/

/-- What follows does not go on with a number. -/
def EndsNumber (rest : List Char) : Prop :=
  ∀ c ∈ rest.head?, c.isDigit = false ∧ c ≠ '.' ∧ c ≠ 'e' ∧ c ≠ 'E'

theorem endsNumber_nil : EndsNumber [] := by simp [EndsNumber]

theorem endsNumber_comma (rest : List Char) : EndsNumber (',' :: rest) := by simp [EndsNumber]

theorem endsNumber_bracket (rest : List Char) : EndsNumber (']' :: rest) := by simp [EndsNumber]

theorem endsNumber_brace (rest : List Char) : EndsNumber ('\x7d' :: rest) := by simp [EndsNumber]

variable {rest : List Char}

theorem someDigits?_append {digits : List Char} (hdigits : ∀ c ∈ digits, c.isDigit = true)
    (hsome : digits ≠ []) (hrest : EndsNumber rest) :
    someDigits? (digits ++ rest) = some (digits, rest) := by
  have hstop : rest.takeWhile Char.isDigit = [] ∧ rest.dropWhile Char.isDigit = rest := by
    cases rest with
    | nil => exact ⟨rfl, rfl⟩
    | cons c rest => simp [(hrest c rfl).1]
  rw [someDigits?, List.takeWhile_append_of_pos hdigits, List.dropWhile_append_of_pos hdigits,
    hstop.1, hstop.2, List.append_nil]
  cases digits with
  | nil => exact absurd rfl hsome
  | cons c digits => rfl

theorem readFraction?_of_endsNumber (hrest : EndsNumber rest) :
    readFraction? rest = some (none, rest) := by
  cases rest with
  | nil => rfl
  | cons c rest =>
    rw [readFraction?]
    rintro rest' h
    exact (hrest c rfl).2.1 (List.cons.inj h).1

theorem readExponent?_of_endsNumber (hrest : EndsNumber rest) :
    readExponent? rest = some (none, rest) := by
  cases rest with
  | nil => rfl
  | cons c rest => simp [readExponent?, hrest c rfl]

theorem le_ofDigitChars (digits : List Char) (n : Nat) : n ≤ Nat.ofDigitChars 10 digits n := by
  rw [Nat.ofDigitChars_eq_ofDigitChars_zero]
  have := Nat.le_mul_of_pos_left n (Nat.pow_pos (n := digits.length) (show 0 < 10 by decide))
  omega

/-- Digits are all taken up when the number that they spell fits. -/
theorem absorb_of_lt (digits : List Char) (n : Nat)
    (h : Nat.ofDigitChars 10 digits n < Nat.pow 2 64) :
    absorb n digits = (Nat.ofDigitChars 10 digits n, []) := by
  induction digits generalizing n with
  | nil => rfl
  | cons c digits ih =>
    rw [Nat.ofDigitChars_cons] at h ⊢
    have hnext : 10 * n + digitValue c < Nat.pow 2 64 :=
      Nat.lt_of_le_of_lt (le_ofDigitChars digits _) h
    rw [absorb, if_pos hnext]
    exact ih _ h

/-- A decimal numeral does not begin with a zero, unless it is zero. -/
theorem head?_toDigits {n : Nat} (h : (Nat.toDigits 10 n).head? = some '0') : n = 0 := by
  induction n using Nat.base_induction 10 (by decide) with
  | single m hm =>
    rw [Nat.toDigits_of_lt_base hm] at h
    simpa using h
  | digit m k hk hm ih =>
    rw [← Nat.toDigits_append_toDigits (by decide) hm hk] at h
    have hlead : (Nat.toDigits 10 m).head? = some '0' := by
      cases hm : Nat.toDigits 10 m with
      | nil => exact absurd hm Nat.toDigits_ne_nil
      | cons c digits => rwa [hm] at h
    exact absurd (ih hlead) (Nat.pos_iff_ne_zero.1 hm)

/-! ### Integers -/

theorem toList_print_integer (i : Int) :
    (Number.print (.integer i)).toList =
      (if i < 0 then ['-'] else []) ++ Nat.toDigits 10 i.natAbs := by
  rw [Number.print]
  split <;> simp

/-- The digits of a number that fits, behind a sign or without one. -/
theorem value_digits {n : Nat} (negative : Bool) (hfits : n < Nat.pow 2 64) :
    NumberText.value ⟨negative, Nat.toDigits 10 n, none, none⟩ =
      if negative then
        if n = 0 ∨ Nat.pow 2 63 < n then .binary (Binary64.nearest true n 1) else .integer (-n)
      else .integer n := by
  have hall : absorb 0 (Nat.toDigits 10 n) = (n, []) := by
    have hspell : Nat.ofDigitChars 10 (Nat.toDigits 10 n) 0 = n := Nat.ofDigitChars_ten_toDigits
    rw [absorb_of_lt _ _ (by rwa [hspell]), hspell]
  rw [NumberText.value, hall]

theorem readNumber?_digits (negative : Bool) (n : Nat) (hrest : EndsNumber rest) :
    readNumber? ((if negative then ['-'] else []) ++ Nat.toDigits 10 n ++ rest) =
      some (NumberText.value ⟨negative, Nat.toDigits 10 n, none, none⟩, rest) := by
  have hdigits : ∀ c ∈ Nat.toDigits 10 n, c.isDigit = true := fun c hc =>
    Nat.isDigit_of_mem_toDigits (by decide) (by decide) hc
  have hread : someDigits? (Nat.toDigits 10 n ++ rest) = some (Nat.toDigits 10 n, rest) :=
    someDigits?_append hdigits Nat.toDigits_ne_nil hrest
  have hlead : ¬(1 < (Nat.toDigits 10 n).length ∧ (Nat.toDigits 10 n).head? = some '0') := by
    rintro ⟨hlength, hhead⟩
    rw [head?_toDigits hhead, Nat.toDigits_zero] at hlength
    exact absurd hlength (by decide)
  have hminus : ∀ tail, Nat.toDigits 10 n ++ rest ≠ '-' :: tail := by
    intro tail h
    cases hn : Nat.toDigits 10 n with
    | nil => exact Nat.toDigits_ne_nil hn
    | cons c digits =>
      rw [hn] at h
      have hdigit := hdigits c (hn ▸ List.mem_cons_self)
      rw [(List.cons.inj h).1] at hdigit
      exact absurd hdigit (by decide)
  cases negative with
  | true =>
    rw [if_pos rfl, List.append_assoc, List.singleton_append, readNumber?]
    simp [hread, hlead, readFraction?_of_endsNumber hrest, readExponent?_of_endsNumber hrest]
  | false =>
    rw [if_neg Bool.false_ne_true, List.nil_append, readNumber?]
    · simp [hread, hlead, readFraction?_of_endsNumber hrest, readExponent?_of_endsNumber hrest]
    · exact hminus

/-- **An integer of 64 bits**, signed or unsigned, is read as it was printed. -/
theorem readNumber?_print {i : Int} (hlow : -Int.pow 2 63 ≤ i) (hhigh : i < Int.pow 2 64)
    (hrest : EndsNumber rest) :
    readNumber? ((Number.print (.integer i)).toList ++ rest) = some (.integer i, rest) := by
  rw [show Int.pow 2 63 = 9223372036854775808 from rfl] at hlow
  rw [show Int.pow 2 64 = 18446744073709551616 from rfl] at hhigh
  have hfits : i.natAbs < 18446744073709551616 := by omega
  have hread := readNumber?_digits (decide (i < 0)) i.natAbs hrest
  rw [value_digits _ hfits] at hread
  rw [toList_print_integer]
  simp only [decide_eq_true_eq] at hread
  rw [hread]
  by_cases hneg : i < 0
  · have hbound : ¬(i.natAbs = 0 ∨ Nat.pow 2 63 < i.natAbs) := by
      rw [show Nat.pow 2 63 = 9223372036854775808 from rfl]
      omega
    have hvalue : -(i.natAbs : Int) = i := by omega
    rw [if_pos hneg, if_neg hbound, hvalue]
  · have hvalue : (i.natAbs : Int) = i := by omega
    rw [if_neg hneg, hvalue]

/-! ### Strings -/

/-- The piece that a printed character is read as. -/
def pieceOf (c : Char) : StringPiece :=
  if c < ' ' ∧ c ∉ ['\x08', '\x0c', '\n', '\x0d', '\t'] then .unit c.toNat else .char c

theorem hexUnit?_hexChar {n : Nat} (h : n < 256) :
    hexUnit? '0' '0' (Text.hexChar (n / 16)) (Text.hexChar (n % 16)) = some n := by
  have hzero : Text.hexDigit? '0' = some 0 := rfl
  rw [hexUnit?, hzero, Text.hexDigit?_hexChar (by omega), Text.hexDigit?_hexChar (by omega)]
  simp only [Option.bind_eq_bind, Option.bind_some, Option.pure_def, Option.some.injEq]
  omega

/-- A character that stands for itself. -/
theorem readPieces?_char {c : Char} (hquote : c ≠ '"') (hslash : c ≠ '\\') (hlow : ¬c < ' ')
    (rest : List Char) :
    readPieces? (c :: rest) =
      (readPieces? rest).map fun read => (StringPiece.char c :: read.1, read.2) := by
  rw [readPieces?.eq_def]
  split <;> rename_i heq <;> cases heq
  · exact absurd rfl hquote
  · exact absurd rfl hslash
  · exact absurd rfl hslash
  · cases readPieces? rest <;> simp [hlow]

/-- An escape of two characters. -/
theorem readPieces?_short {letter c : Char} (hletter : shortEscape? letter = some c)
    (rest : List Char) :
    readPieces? ('\\' :: letter :: rest) =
      (readPieces? rest).map fun read => (StringPiece.char c :: read.1, read.2) := by
  have hu : letter ≠ 'u' := by
    rintro rfl
    cases hletter
  rw [readPieces?.eq_def]
  split <;> rename_i heq <;> cases heq
  · exact absurd rfl hu
  · rw [hletter]
    cases readPieces? rest <;> rfl
  · rename_i hother
    exact absurd rfl (hother _ _ rfl)

/-- An escape with four digits. -/
theorem readPieces?_unit {n : Nat} (h : n < 256) (rest : List Char) :
    readPieces? ('\\' :: 'u' :: '0' :: '0' :: Text.hexChar (n / 16) :: Text.hexChar (n % 16) ::
      rest) = (readPieces? rest).map fun read => (StringPiece.unit n :: read.1, read.2) := by
  rw [readPieces?, hexUnit?_hexChar h]
  cases readPieces? rest <;> rfl

/-- **A printed character** is read as one piece. -/
theorem readPieces?_escape (c : Char) (rest : List Char) :
    readPieces? (escape c ++ rest) =
      (readPieces? rest).map fun read => (pieceOf c :: read.1, read.2) := by
  unfold escape
  split
  iterate 7 exact readPieces?_short rfl rest
  rename_i hquote hslash hback hfeed hline hreturn htab
  have hshort : c ∉ ['\x08', '\x0c', '\n', '\x0d', '\t'] := by
    simp only [List.mem_cons, List.not_mem_nil, or_false, not_or]
    exact ⟨hback, hfeed, hline, hreturn, htab⟩
  by_cases hlow : c < ' '
  · have hsmall : c.toNat < 256 := Nat.lt_trans hlow (by decide)
    rw [if_pos hlow, pieceOf, if_pos ⟨hlow, hshort⟩]
    exact readPieces?_unit hsmall rest
  · rw [if_neg hlow, pieceOf, if_neg (fun h => hlow h.1)]
    exact readPieces?_char hquote hslash hlow rest

theorem readPieces?_flatMap_escape (cs rest : List Char) :
    readPieces? (cs.flatMap escape ++ '"' :: rest) = some (cs.map pieceOf, rest) := by
  induction cs with
  | nil => rw [List.flatMap_nil, List.nil_append, readPieces?, List.map_nil]
  | cons c cs ih =>
    rw [List.flatMap_cons, List.append_assoc, readPieces?_escape, ih]
    rfl

theorem assemble?_pieceOf (c : Char) (pieces : List StringPiece) :
    assemble? (pieceOf c :: pieces) = (assemble? pieces).map (c :: ·) := by
  unfold pieceOf
  split
  · rename_i h
    have hsmall : c.toNat < 32 := h.1
    have hself : Char.ofNat c.toNat = c := Char.ofNat_toNat c
    cases pieces with
    | nil => simp [assemble?, hself, show ¬(0xD800 ≤ c.toNat ∧ c.toNat < 0xE000) by omega]
    | cons piece pieces =>
      cases piece with
      | char d => simp [assemble?, hself, show ¬(0xD800 ≤ c.toNat ∧ c.toNat < 0xE000) by omega]
      | unit n =>
        simp [assemble?, hself, show ¬(0xD800 ≤ c.toNat ∧ c.toNat < 0xDC00) by omega,
          show ¬(0xDC00 ≤ c.toNat ∧ c.toNat < 0xE000) by omega]
  · rw [assemble?]

theorem assemble?_map_pieceOf (cs : List Char) : assemble? (cs.map pieceOf) = some cs := by
  induction cs with
  | nil => rfl
  | cons c cs ih =>
    rw [List.map_cons, assemble?_pieceOf, ih]
    rfl

theorem toList_quote (s : String) :
    (quote s).toList = '"' :: (s.toList.flatMap escape ++ ['"']) := by
  simp [quote]

/-- **Any string** is read as it was printed, behind its opening quote. -/
theorem readString?_escaped (s : String) (rest : List Char) :
    readString? (s.toList.flatMap escape ++ '"' :: rest) = some (some s, rest) := by
  rw [readString?, readPieces?_flatMap_escape]
  simp [assemble?_map_pieceOf]

end Json

end ExchangePipeline
