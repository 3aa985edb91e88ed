/-
  ExchangePipeline/Proofs/Json/Intact.lean
  ========================================
  **What is read to its end is complete.**

  A text that holds one value and nothing behind it is read as a tree without a
  broken place (`intact_of_read`): where reading stops inside a value, nothing is
  handed on to those around it.
-/
import ExchangePipeline.Json.Reader

namespace ExchangePipeline

namespace Json

variable {fuel : Nat} {cs rest : List Char} {j value : Json}

theorem fieldsIntact_iff {fields : List (Option String × Json)} :
    fieldsIntact fields = true ↔ ∀ field ∈ fields, field.2.intact = true := by
  induction fields with
  | nil => simp [fieldsIntact]
  | cons field rest ih => simp [fieldsIntact, ih]

theorem intact_record {fields : List (String × Json)} :
    (record fields).intact = true ↔ ∀ field ∈ fields, field.2.intact = true := by
  rw [record, intact, Bool.true_and, fieldsIntact_iff, List.forall_mem_map]

theorem intact_of_readWord {word : List Char} (hvalue : value.intact = true)
    (h : readWord word value cs = (j, some rest)) : j.intact = true := by
  rw [readWord] at h
  split at h
  · cases h
    exact hvalue
  · cases h

/-- What is handed on with a rest is complete: values, items, fields. -/
structure ReadsIntact (fuel : Nat) : Prop where
  value : ∀ {cs j rest}, readValue fuel cs = (j, some rest) → j.intact = true
  items : ∀ {cs items rest}, readItems fuel cs = (items, some rest) → allIntact items = true
  fields : ∀ {cs fields rest}, readFields fuel cs = (fields, some rest) → fieldsIntact fields = true

theorem ReadsIntact.value_succ (ih : ReadsIntact fuel)
    (h : readValue (fuel + 1) cs = (j, some rest)) : j.intact = true := by
  rw [readValue] at h
  split at h
  · cases h
  · split at h
    · cases h
      rfl
    · cases h
  · split at h
    · cases h
      rfl
    · obtain ⟨rfl, hrest⟩ := Prod.mk.inj h
      simpa [intact, hrest] using ih.items (Prod.ext rfl hrest)
  · split at h
    · cases h
      rfl
    · obtain ⟨rfl, hrest⟩ := Prod.mk.inj h
      simpa [intact, hrest] using ih.fields (Prod.ext rfl hrest)
  · exact intact_of_readWord rfl h
  · exact intact_of_readWord rfl h
  · exact intact_of_readWord rfl h
  · split at h
    · cases h
      rfl
    · cases h

theorem ReadsIntact.items_succ (ih : ReadsIntact fuel) {items : List Json}
    (h : readItems (fuel + 1) cs = (items, some rest)) : allIntact items = true := by
  rw [readItems] at h
  split at h
  · cases h
  · rename_i item more hitem
    have hfirst : item.intact = true := ih.value hitem
    split at h
    · obtain ⟨rfl, hrest⟩ := Prod.mk.inj h
      simpa [allIntact, hfirst] using ih.items (Prod.ext rfl hrest)
    · cases h
      simpa [allIntact] using hfirst
    · cases h

theorem ReadsIntact.fields_succ (ih : ReadsIntact fuel) {fields : List (Option String × Json)}
    (h : readFields (fuel + 1) cs = (fields, some rest)) : fieldsIntact fields = true := by
  rw [readFields] at h
  split at h
  · split at h
    · cases h
    · split at h
      · split at h
        · cases h
        · rename_i value more hvalue
          have hfirst : value.intact = true := ih.value hvalue
          split at h
          · obtain ⟨rfl, hrest⟩ := Prod.mk.inj h
            simpa [fieldsIntact, hfirst] using ih.fields (Prod.ext rfl hrest)
          · cases h
            simpa [fieldsIntact] using hfirst
          · cases h
      · cases h
  · cases h

theorem readsIntact (fuel : Nat) : ReadsIntact fuel := by
  induction fuel with
  | zero =>
    constructor
    · intro cs j rest h
      cases h
    · intro cs items rest h
      cases h
    · intro cs fields rest h
      cases h
  | succ fuel ih => exact ⟨ih.value_succ, ih.items_succ, ih.fields_succ⟩

/-- **A text that ends with its value** is read as a complete tree. -/
theorem intact_of_read {s : String} (h : read s = (j, true)) : j.intact = true := by
  rw [read] at h
  split at h
  · cases h
  · rename_i value rest hvalue
    cases (Prod.mk.inj h).1
    exact (readsIntact _).value hvalue

end Json

end ExchangePipeline
