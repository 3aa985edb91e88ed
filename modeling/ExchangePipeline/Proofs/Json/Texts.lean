/-
  ExchangePipeline/Proofs/Json/Texts.lean
  =======================================
  **A printed tree is read as the tree that was printed.**

  This holds for every complete tree whose numbers are integers of 64 bits
  (`Printable`), whatever its strings and keys are and however deep it is.  Reading
  follows the constructors of the tree; what stands behind a value must not go on
  with a number, and the characters of the text are fuel enough.
-/
import ExchangePipeline.Proofs.Json.Scalars

namespace ExchangePipeline

namespace Json

mutual

/-- Whether a tree is complete, with readable strings and integers of 64 bits, signed or
    unsigned. -/
def Printable : Json → Prop
  | .null => True
  | .bool _ => True
  | .number (.integer i) => -Int.pow 2 63 ≤ i ∧ i < Int.pow 2 64
  | .number _ => False
  | .string s => s.isSome = true
  | .array items closed => closed = true ∧ AllPrintable items
  | .object fields closed => closed = true ∧ FieldsPrintable fields
  | .broken => False

/-- Whether all items are. -/
def AllPrintable : List Json → Prop
  | [] => True
  | item :: rest => item.Printable ∧ AllPrintable rest

/-- Whether all fields are, with readable keys. -/
def FieldsPrintable : List (Option String × Json) → Prop
  | [] => True
  | (key, value) :: rest => key.isSome = true ∧ value.Printable ∧ FieldsPrintable rest

end

theorem allPrintable_iff {items : List Json} :
    AllPrintable items ↔ ∀ item ∈ items, item.Printable := by
  induction items with
  | nil => simp [AllPrintable]
  | cons item rest ih => simp [AllPrintable, ih]

theorem fieldsPrintable_iff {fields : List (Option String × Json)} :
    FieldsPrintable fields ↔ ∀ field ∈ fields, field.1.isSome = true ∧ field.2.Printable := by
  induction fields with
  | nil => simp [FieldsPrintable]
  | cons field rest ih => simp [FieldsPrintable, ih, and_assoc]

/-! ### Printed characters -/

theorem toList_print_array (items : List Json) (closed : Bool) :
    (print (.array items closed)).toList = '[' :: ((printItems items).toList ++ [']']) := by
  simp [print]

theorem toList_print_object (fields : List (Option String × Json)) (closed : Bool) :
    (print (.object fields closed)).toList =
      '\x7b' :: ((printFields fields).toList ++ ['\x7d']) := by
  simp [print]

/-- Behind an item stands the end of the array or a comma and further items. -/
theorem toList_printItems_cons (item : Json) (rest : List Json) :
    (printItems (item :: rest)).toList =
      item.print.toList ++ if rest = [] then [] else ',' :: (printItems rest).toList := by
  cases rest <;> simp [printItems]

theorem toList_printFields_cons (key : String) (value : Json)
    (rest : List (Option String × Json)) :
    (printFields ((some key, value) :: rest)).toList =
      '"' :: (key.toList.flatMap escape ++ '"' :: ':' :: (value.print.toList ++
        if rest = [] then [] else ',' :: (printFields rest).toList)) := by
  cases rest <;> simp [printFields, toList_quote]

theorem skipBlanks_cons {c : Char} (h : isBlank c = false) (cs : List Char) :
    skipBlanks (c :: cs) = c :: cs := by
  simp [skipBlanks, h]

/-- A printed integer begins with a sign or a digit. -/
theorem print_integer_head (i : Int) :
    ∃ c tail, (Number.print (.integer i)).toList = c :: tail ∧ (c = '-' ∨ c.isDigit = true) := by
  rw [toList_print_integer]
  by_cases hneg : i < 0
  · exact ⟨'-', _, by rw [if_pos hneg]; rfl, .inl rfl⟩
  · cases hn : Nat.toDigits 10 i.natAbs with
    | nil => exact absurd hn Nat.toDigits_ne_nil
    | cons c digits =>
      have hdigit : c.isDigit = true :=
        Nat.isDigit_of_mem_toDigits (by decide) (by decide) (hn ▸ List.mem_cons_self)
      exact ⟨c, digits, by rw [if_neg hneg]; rfl, .inr hdigit⟩

theorem isBlank_of_number {c : Char} (h : c = '-' ∨ c.isDigit = true) :
    isBlank c = false ∧ c ∉ ['"', '[', ']', '\x7b', 'n', 't', 'f'] := by
  obtain rfl | h := h
  · decide
  · have hrange : 48 ≤ c.toNat ∧ c.toNat ≤ 57 := by
      simpa [Char.isDigit, UInt32.le_iff_toNat_le] using h
    have hne : ∀ d : Char, d.toNat < 48 ∨ 57 < d.toNat → c ≠ d := by
      rintro d hd rfl
      omega
    simp [isBlank, hne]

/-- A printed value begins with no blank and with no closing bracket. -/
theorem print_head {j : Json} (h : j.Printable) :
    ∃ c tail, j.print.toList = c :: tail ∧ isBlank c = false ∧ c ≠ ']' := by
  cases j with
  | null => exact ⟨'n', _, rfl, rfl, by decide⟩
  | bool b => cases b <;> exact ⟨_, _, rfl, rfl, by decide⟩
  | number n =>
    cases n with
    | integer i =>
      obtain ⟨c, tail, hprint, hc⟩ := print_integer_head i
      obtain ⟨hblank, hother⟩ := isBlank_of_number hc
      exact ⟨c, tail, hprint, hblank, by rintro rfl; simp at hother⟩
    | binary x => exact h.elim
    | outOfRange => exact h.elim
  | string s => exact ⟨'"', _, by rw [print, toList_quote], rfl, by decide⟩
  | array items closed => exact ⟨'[', _, toList_print_array items closed, rfl, by decide⟩
  | object fields closed => exact ⟨'\x7b', _, toList_print_object fields closed, rfl, by decide⟩
  | broken => exact h.elim

/-! ### Reading by the first character -/

section

variable {fuel : Nat} {rest : List Char}

theorem readValue_string (s : String) :
    readValue (fuel + 1) ((quote s).toList ++ rest) = (.string (some s), some rest) := by
  rw [toList_quote, List.cons_append, List.append_assoc, List.singleton_append, readValue,
    skipBlanks_cons rfl]
  simp [readString?_escaped]

theorem readValue_integer {i : Int} (hlow : -Int.pow 2 63 ≤ i) (hhigh : i < Int.pow 2 64)
    (hrest : EndsNumber rest) :
    readValue (fuel + 1) ((Number.print (.integer i)).toList ++ rest) =
      (.number (.integer i), some rest) := by
  have hread := readNumber?_print hlow hhigh hrest
  obtain ⟨c, tail, hprint, hc⟩ := print_integer_head i
  obtain ⟨hblank, hother⟩ := isBlank_of_number hc
  rw [hprint, List.cons_append] at hread ⊢
  rw [readValue, skipBlanks_cons hblank]
  simp only [List.mem_cons, not_or] at hother
  split <;> simp_all

theorem readValue_array_nil :
    readValue (fuel + 1) ('[' :: ']' :: rest) = (.array [] true, some rest) := by
  rw [readValue, skipBlanks_cons rfl]
  simp [skipBlanks_cons, isBlank]

/-- An array with an item: what begins it is no closing bracket. -/
theorem readValue_array {c : Char} (hblank : isBlank c = false) (hc : c ≠ ']') :
    readValue (fuel + 1) ('[' :: c :: rest) =
      (.array (readItems fuel (c :: rest)).1 (readItems fuel (c :: rest)).2.isSome,
        (readItems fuel (c :: rest)).2) := by
  rw [readValue, skipBlanks_cons rfl]
  simp only [skipBlanks_cons hblank]
  split
  · rename_i heq
    exact absurd (List.cons.inj heq).1 hc
  · rfl

theorem readValue_object_nil :
    readValue (fuel + 1) ('\x7b' :: '\x7d' :: rest) = (.object [] true, some rest) := by
  rw [readValue, skipBlanks_cons rfl]
  simp [skipBlanks_cons, isBlank]

theorem readValue_object :
    readValue (fuel + 1) ('\x7b' :: '"' :: rest) =
      (.object (readFields fuel ('"' :: rest)).1 (readFields fuel ('"' :: rest)).2.isSome,
        (readFields fuel ('"' :: rest)).2) := by
  rw [readValue, skipBlanks_cons rfl]
  simp only [skipBlanks_cons (show isBlank '"' = false from rfl)]
  rfl

/-- The last item of an array. -/
theorem readItems_last {cs : List Char} {item : Json}
    (h : readValue fuel cs = (item, some (']' :: rest))) :
    readItems (fuel + 1) cs = ([item], some rest) := by
  rw [readItems, h]
  simp [skipBlanks_cons, isBlank]

/-- An item of an array with another one behind it. -/
theorem readItems_next {cs : List Char} {item : Json} {items : List Json}
    {after : Option (List Char)} (h : readValue fuel cs = (item, some (',' :: rest)))
    (hrest : readItems fuel rest = (items, after)) :
    readItems (fuel + 1) cs = (item :: items, after) := by
  rw [readItems, h]
  simp [skipBlanks_cons, isBlank, hrest]

/-- The last field of an object. -/
theorem readFields_last {key : String} {cs : List Char} {value : Json}
    (h : readValue fuel cs = (value, some ('\x7d' :: rest))) :
    readFields (fuel + 1) ('"' :: (key.toList.flatMap escape ++ '"' :: ':' :: cs)) =
      ([(some key, value)], some rest) := by
  rw [readFields, skipBlanks_cons rfl]
  simp [readString?_escaped, skipBlanks_cons, isBlank, h]

/-- A field of an object with another one behind it. -/
theorem readFields_next {key : String} {cs : List Char} {value : Json}
    {fields : List (Option String × Json)} {after : Option (List Char)}
    (h : readValue fuel cs = (value, some (',' :: rest)))
    (hrest : readFields fuel rest = (fields, after)) :
    readFields (fuel + 1) ('"' :: (key.toList.flatMap escape ++ '"' :: ':' :: cs)) =
      ((some key, value) :: fields, after) := by
  rw [readFields, skipBlanks_cons rfl]
  simp [readString?_escaped, skipBlanks_cons, isBlank, h, hrest]

end

/-! ### Reading what was printed -/

/-- A printed value is read up to its end. -/
def ReadsBack (j : Json) : Prop :=
  ∀ (fuel : Nat) (rest : List Char), j.print.toList.length ≤ fuel → EndsNumber rest →
    readValue fuel (j.print.toList ++ rest) = (j, some rest)

/-- Printed items are read up to the end of their array. -/
def ItemsReadBack (items : List Json) : Prop :=
  ∀ (fuel : Nat) (rest : List Char), (printItems items).toList.length < fuel →
    readItems fuel ((printItems items).toList ++ ']' :: rest) = (items, some rest)

/-- Printed fields are read up to the end of their object. -/
def FieldsReadBack (fields : List (Option String × Json)) : Prop :=
  ∀ (fuel : Nat) (rest : List Char), (printFields fields).toList.length < fuel →
    readFields fuel ((printFields fields).toList ++ '\x7d' :: rest) = (fields, some rest)

/-- A text has a character, so the fuel is not used up before its value is begun. -/
theorem readsBack_of_succ {j : Json} (hprintable : j.Printable)
    (h : ∀ (fuel : Nat) (rest : List Char), j.print.toList.length ≤ fuel + 1 → EndsNumber rest →
      readValue (fuel + 1) (j.print.toList ++ rest) = (j, some rest)) : ReadsBack j := by
  intro fuel rest hfuel hrest
  obtain ⟨c, tail, hprint, -⟩ := print_head hprintable
  cases fuel with
  | zero => simp [hprint] at hfuel
  | succ fuel => exact h fuel rest hfuel hrest

theorem itemsReadBack_cons {item : Json} {items : List Json} (hitem : ReadsBack item)
    (hitems : items ≠ [] → ItemsReadBack items) : ItemsReadBack (item :: items) := by
  intro fuel rest hfuel
  obtain ⟨fuel, rfl⟩ : ∃ k, fuel = k + 1 := ⟨fuel - 1, by omega⟩
  rw [toList_printItems_cons, List.length_append] at hfuel
  rw [toList_printItems_cons, List.append_assoc]
  cases items with
  | nil => exact readItems_last (hitem fuel _ (by omega) (endsNumber_bracket rest))
  | cons next items =>
    rw [if_neg (List.cons_ne_nil _ _), List.length_cons] at hfuel
    exact readItems_next (hitem fuel _ (by omega) (endsNumber_comma _))
      (hitems (List.cons_ne_nil _ _) fuel rest (by omega))

theorem fieldsReadBack_cons {key : String} {value : Json} {fields : List (Option String × Json)}
    (hvalue : ReadsBack value) (hfields : fields ≠ [] → FieldsReadBack fields) :
    FieldsReadBack ((some key, value) :: fields) := by
  intro fuel rest hfuel
  obtain ⟨fuel, rfl⟩ : ∃ k, fuel = k + 1 := ⟨fuel - 1, by omega⟩
  rw [toList_printFields_cons] at hfuel
  simp only [List.length_cons, List.length_append] at hfuel
  rw [toList_printFields_cons, List.cons_append, List.append_assoc, List.cons_append,
    List.cons_append, List.append_assoc]
  cases fields with
  | nil => exact readFields_last (hvalue fuel _ (by omega) (endsNumber_brace rest))
  | cons next fields =>
    rw [if_neg (List.cons_ne_nil _ _), List.length_cons] at hfuel
    exact readFields_next (hvalue fuel _ (by omega) (endsNumber_comma _))
      (hfields (List.cons_ne_nil _ _) fuel rest (by omega))

theorem readsBack_array {items : List Json} (hprintable : AllPrintable items)
    (hitems : items ≠ [] → ItemsReadBack items) : ReadsBack (.array items true) := by
  refine readsBack_of_succ ⟨rfl, hprintable⟩ fun fuel rest hfuel _ => ?_
  rw [toList_print_array, List.length_cons, List.length_append, List.length_singleton] at hfuel
  rw [toList_print_array, List.cons_append, List.append_assoc, List.singleton_append]
  cases items with
  | nil => exact readValue_array_nil
  | cons item items =>
    have hread := hitems (List.cons_ne_nil _ _) fuel rest (by omega)
    obtain ⟨c, tail, hprint, hblank, hc⟩ := print_head hprintable.1
    rw [toList_printItems_cons, hprint, List.cons_append, List.cons_append] at hread ⊢
    rw [readValue_array hblank hc, hread]
    rfl

theorem readsBack_object {fields : List (Option String × Json)}
    (hprintable : FieldsPrintable fields) (hfields : fields ≠ [] → FieldsReadBack fields) :
    ReadsBack (.object fields true) := by
  refine readsBack_of_succ ⟨rfl, hprintable⟩ fun fuel rest hfuel _ => ?_
  rw [toList_print_object, List.length_cons, List.length_append, List.length_singleton] at hfuel
  rw [toList_print_object, List.cons_append, List.append_assoc, List.singleton_append]
  match fields, hprintable with
  | [], _ => exact readValue_object_nil
  | (some key, value) :: fields, _ =>
    have hread := hfields (List.cons_ne_nil _ _) fuel rest (by omega)
    rw [toList_printFields_cons, List.cons_append] at hread ⊢
    rw [readValue_object, hread]
    rfl

mutual

/-- **Every printable value** is read back. -/
theorem readsBack : ∀ (j : Json), j.Printable → ReadsBack j
  | .null, h => readsBack_of_succ h fun _ _ _ _ => by
    simp [print, readValue, skipBlanks, isBlank, readWord]
  | .bool b, h => readsBack_of_succ h fun _ _ _ _ => by
    cases b <;> simp [print, readValue, skipBlanks, isBlank, readWord]
  | .number (.integer _), h => readsBack_of_succ h fun _ _ _ hrest =>
    readValue_integer h.1 h.2 hrest
  | .string (some s), h => readsBack_of_succ h fun _ _ _ _ => readValue_string s
  | .array items true, h => readsBack_array h.2 (itemsReadBack items h.2)
  | .object fields true, h => readsBack_object h.2 (fieldsReadBack fields h.2)

theorem itemsReadBack : ∀ (items : List Json), AllPrintable items → items ≠ [] →
    ItemsReadBack items
  | item :: items, h, _ => itemsReadBack_cons (readsBack item h.1) (itemsReadBack items h.2)

theorem fieldsReadBack : ∀ (fields : List (Option String × Json)), FieldsPrintable fields →
    fields ≠ [] → FieldsReadBack fields
  | (some _, value) :: fields, h, _ =>
    fieldsReadBack_cons (readsBack value h.2.1) (fieldsReadBack fields h.2.2)

end

/-- **A printed text** is read as the tree that was printed, to its end. -/
theorem read_print {j : Json} (h : j.Printable) : read j.print = (j, true) := by
  have hread := readsBack j h (2 * j.print.toList.length + 2) [] (by omega) endsNumber_nil
  rw [List.append_nil] at hread
  rw [read, hread]
  rfl

end Json

end ExchangePipeline
