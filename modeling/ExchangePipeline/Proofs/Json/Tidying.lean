/-
  ExchangePipeline/Proofs/Json/Tidying.lean
  =========================================
  **Objects with their fields in the order of the keys.**

  Putting fields into their places from the last to the first, unless there is one of
  the key already, is writing them from the first to the last: a tidy object is a
  dictionary (`tidy_record`), with the same keys and no other fields.  A complete tree
  stays complete (`intact_tidy`).
-/
import Mathlib.Logic.Basic
import ExchangePipeline.Dict
import ExchangePipeline.Proofs.Json.Intact

namespace ExchangePipeline

namespace Dict

variable {α : Type} {key other : String} {value : α} {d : Dict α} {pairs : List (String × α)}

/-! ### Writing from the first to the last -/

theorem insert_insert_self (key : String) (value value' : α) (d : Dict α) :
    insert key value' (insert key value d) = insert key value' d := by
  induction d with
  | nil => simp [insert]
  | cons pair rest ih =>
    obtain ⟨k, v⟩ := pair
    by_cases heq : key = k
    · simp [insert, heq]
    · by_cases hlt : key < k
      · simp [insert, heq, hlt]
      · simp [insert, heq, hlt, ih]

@[simp] theorem keys_nil : keys ([] : Dict α) = [] := rfl

@[simp] theorem keys_cons (pair : String × α) (d : Dict α) :
    keys (pair :: d) = pair.1 :: keys d := rfl

theorem mem_keys_insert : other ∈ keys (insert key value d) ↔ other = key ∨ other ∈ keys d := by
  induction d with
  | nil => simp [insert]
  | cons pair rest ih =>
    obtain ⟨k, v⟩ := pair
    by_cases heq : key = k
    · simp [insert, heq]
    · by_cases hlt : key < k
      · simp [insert, heq, hlt]
      · simp only [insert, heq, hlt, if_false, keys_cons, List.mem_cons, ih]
        exact or_left_comm

/-- What is written first counts only if nothing is written under its key afterwards. -/
theorem foldl_insert (key : String) (value : α) (pairs : List (String × α)) (d : Dict α) :
    pairs.foldl (fun d pair => insert pair.1 pair.2 d) (insert key value d) =
      if key ∈ keys pairs then pairs.foldl (fun d pair => insert pair.1 pair.2 d) d
      else insert key value (pairs.foldl (fun d pair => insert pair.1 pair.2 d) d) := by
  induction pairs generalizing d with
  | nil => simp
  | cons pair rest ih =>
    rw [List.foldl_cons, List.foldl_cons, keys_cons]
    by_cases heq : key = pair.1
    · subst heq
      rw [insert_insert_self, if_pos List.mem_cons_self]
    · rw [insert_comm (Ne.symm heq), ih]
      exact if_congr (by simp [heq]) rfl rfl

theorem ofList_cons (key : String) (value : α) (pairs : List (String × α)) :
    ofList ((key, value) :: pairs) =
      if key ∈ keys pairs then ofList pairs else insert key value (ofList pairs) :=
  foldl_insert key value pairs []

theorem mem_keys_ofList : key ∈ keys (ofList pairs) ↔ key ∈ keys pairs := by
  induction pairs with
  | nil => rfl
  | cons pair rest ih =>
    rw [ofList_cons]
    by_cases hkey : pair.1 ∈ keys rest
    · rw [if_pos hkey, ih]
      simp only [keys_cons, List.mem_cons]
      constructor
      · exact Or.inr
      · rintro (rfl | h)
        · exact hkey
        · exact h
    · rw [if_neg hkey, mem_keys_insert, ih]
      simp

theorem mem_of_mem_ofList {pair : String × α} (h : pair ∈ ofList pairs) : pair ∈ pairs := by
  induction pairs with
  | nil => exact h
  | cons head rest ih =>
    rw [ofList_cons] at h
    split at h
    · exact List.mem_cons_of_mem _ (ih h)
    · rcases mem_insert h with rfl | h
      · exact List.mem_cons_self
      · exact List.mem_cons_of_mem _ (ih h)

theorem Sorted.nodup_keys (h : Sorted d) : (keys d).Nodup := by
  rw [keys, List.Nodup, List.pairwise_map]
  exact h.imp fun hlt => Std.ne_of_lt hlt

end Dict

namespace Json

variable {key : String} {value : Json}

/-! ### Tidy fields -/

/-- A field goes to the place where it would be written, unless its key is there. -/
theorem placeField_of_sorted {d : Dict Json} (h : Dict.Sorted d) (key : String) (value : Json) :
    placeField (some key, value) (d.map fun field => (some field.1, field.2)) =
      (if key ∈ Dict.keys d then d else Dict.insert key value d).map
        fun field => (some field.1, field.2) := by
  induction d with
  | nil => rfl
  | cons pair rest ih =>
    obtain ⟨k, v⟩ := pair
    obtain ⟨hhead, hrest⟩ := List.pairwise_cons.1 h
    rw [List.map_cons, placeField]
    dsimp only
    by_cases hlt : key < k
    · have hnew : key ∉ Dict.keys ((k, v) :: rest) := by
        rw [Dict.keys_cons, List.mem_cons, Dict.keys, List.mem_map]
        rintro (rfl | ⟨field, hfield, rfl⟩)
        · exact String.lt_irrefl _ hlt
        · exact String.lt_asymm hlt (hhead field hfield)
      rw [if_pos hlt, if_neg hnew, Dict.insert, if_neg (Std.ne_of_lt hlt), if_pos hlt]
      rfl
    · by_cases heq : key = k
      · simp [heq]
      · rw [if_neg hlt, if_neg heq, ih hrest]
        by_cases hkey : key ∈ Dict.keys rest
        · have hthere : key ∈ Dict.keys ((k, v) :: rest) := List.mem_cons_of_mem _ hkey
          rw [if_pos hkey, if_pos hthere]
          rfl
        · have hnew : key ∉ Dict.keys ((k, v) :: rest) := by
            simpa [heq] using hkey
          rw [if_neg hkey, if_neg hnew, Dict.insert, if_neg heq, if_neg hlt]
          rfl

/-- **A tidy object** is the dictionary of its tidy fields. -/
theorem tidy_record (fields : List (String × Json)) :
    (record fields).tidy =
      record (Dict.ofList (fields.map fun field => (field.1, field.2.tidy))) := by
  have hfields : tidyFields (fields.map fun field => (some field.1, field.2)) =
      (Dict.ofList (fields.map fun field => (field.1, field.2.tidy))).map
        fun field => (some field.1, field.2) := by
    induction fields with
    | nil => rfl
    | cons field rest ih =>
      rw [List.map_cons, tidyFields, ih, placeField_of_sorted (Dict.sorted_ofList _), List.map_cons,
        Dict.ofList_cons]
      simp only [Dict.mem_keys_ofList]
  rw [record, tidy, hfields, record]

/-! ### Complete trees -/

theorem mem_placeField {field other : Option String × Json}
    {fields : List (Option String × Json)} (h : other ∈ placeField field fields) :
    other = field ∨ other ∈ fields := by
  induction fields with
  | nil => simpa [placeField] using h
  | cons next rest ih =>
    rw [placeField] at h
    have hlater : other ∈ next :: placeField field rest → other = field ∨ other ∈ next :: rest := by
      intro h
      rcases List.mem_cons.1 h with rfl | h
      · exact Or.inr List.mem_cons_self
      · exact (ih h).imp_right (List.mem_cons_of_mem _)
    split at h
    · exact List.mem_cons.1 h
    · exact hlater h
    · split at h
      · exact List.mem_cons.1 h
      · split at h
        · exact Or.inr h
        · exact hlater h

mutual

/-- A complete tree stays complete. -/
theorem intact_tidy : ∀ (j : Json), j.intact = true → j.tidy.intact = true
  | .null, h => h
  | .bool _, h => h
  | .number _, h => h
  | .string _, h => h
  | .broken, h => h
  | .array items closed, h => by
    rw [intact, Bool.and_eq_true] at h
    rw [tidy, intact, h.1, allIntact_tidy items h.2]
    rfl
  | .object fields closed, h => by
    rw [intact, Bool.and_eq_true] at h
    rw [tidy, intact, h.1, fieldsIntact_tidy fields h.2]
    rfl

theorem allIntact_tidy : ∀ (items : List Json), allIntact items = true →
    allIntact (tidyItems items) = true
  | [], h => h
  | item :: rest, h => by
    rw [allIntact, Bool.and_eq_true] at h
    rw [tidyItems, allIntact, intact_tidy item h.1, allIntact_tidy rest h.2]
    rfl

theorem fieldsIntact_tidy : ∀ (fields : List (Option String × Json)), fieldsIntact fields = true →
    fieldsIntact (tidyFields fields) = true
  | [], h => h
  | (key, value) :: rest, h => by
    rw [fieldsIntact, Bool.and_eq_true] at h
    rw [tidyFields, fieldsIntact_iff]
    intro field hfield
    rcases mem_placeField hfield with rfl | hfield
    · exact intact_tidy value h.1
    · exact fieldsIntact_iff.1 (fieldsIntact_tidy rest h.2) field hfield

end

end Json

end ExchangePipeline
