/-
  ExchangePipeline/Dict.lean
  ==========================
  **Maps with text keys, as association lists sorted by key.**

  Parameters of a node, properties of an exchange and the fields of a map value
  are all looked up by a text key and listed in key order.  Keys are compared
  code point by code point, which is also the order of their UTF-8 bytes.

  A dictionary is a plain list of pairs.  `insert` keeps such a list strictly
  sorted, so every dictionary built from `empty` by `insert` and `erase` holds
  each key once (`Sorted.insert`, `Sorted.erase`), and reading back what was
  written is `find?_insert`.
-/

namespace ExchangePipeline

/-- A map from text keys to `α`: pairs in strictly increasing key order. -/
abbrev Dict (α : Type) := List (String × α)

namespace Dict

variable {α β : Type}

/-- The value stored under `key`. -/
def find? (key : String) : Dict α → Option α
  | [] => none
  | (k, v) :: rest => if k = key then some v else find? key rest

/-- Stores `value` under `key`, in its place in the key order, replacing what stood there. -/
def insert (key : String) (value : α) : Dict α → Dict α
  | [] => [(key, value)]
  | (k, v) :: rest =>
    if key = k then (key, value) :: rest
    else if key < k then (key, value) :: (k, v) :: rest
    else (k, v) :: insert key value rest

/-- Removes `key`. -/
def erase (key : String) (d : Dict α) : Dict α :=
  d.filter fun pair => pair.1 ≠ key

/-- Whether something is stored under `key`. -/
def contains (key : String) (d : Dict α) : Bool :=
  (find? key d).isSome

/-- The keys, in order. -/
def keys (d : Dict α) : List String :=
  d.map (·.1)

/-- Stores the pairs one after the other: of two with the same key the later one stays. -/
def ofList (pairs : List (String × α)) : Dict α :=
  pairs.foldl (fun d pair => insert pair.1 pair.2 d) []

/-- Keys increase strictly: the form every dictionary keeps. -/
def Sorted (d : Dict α) : Prop :=
  d.Pairwise fun a b => a.1 < b.1

/-! ### Reading back -/

@[simp] theorem find?_nil (key : String) : find? key ([] : Dict α) = none := rfl

@[simp] theorem find?_insert_self (key : String) (value : α) (d : Dict α) :
    find? key (insert key value d) = some value := by
  induction d with
  | nil => simp [insert, find?]
  | cons pair rest ih =>
    obtain ⟨k, v⟩ := pair
    by_cases heq : key = k
    · simp [insert, find?, heq]
    · by_cases hlt : key < k
      · simp [insert, find?, heq, hlt]
      · simp [insert, find?, heq, hlt, Ne.symm heq, ih]

theorem find?_insert_of_ne {key other : String} (h : other ≠ key) (value : α) (d : Dict α) :
    find? other (insert key value d) = find? other d := by
  induction d with
  | nil => simp [insert, find?, Ne.symm h]
  | cons pair rest ih =>
    obtain ⟨k, v⟩ := pair
    by_cases heq : key = k
    · subst heq
      simp [insert, find?, Ne.symm h]
    · by_cases hlt : key < k
      · simp [insert, find?, heq, hlt, Ne.symm h]
      · simp [insert, find?, heq, hlt, ih]

/-- **Reading after writing**: the written key gives the written value, every other key what
    it gave before. -/
theorem find?_insert (key other : String) (value : α) (d : Dict α) :
    find? other (insert key value d) = if other = key then some value else find? other d := by
  by_cases h : other = key
  · subst h
    simp
  · simp [h, find?_insert_of_ne h]

@[simp] theorem find?_erase_self (key : String) (d : Dict α) : find? key (erase key d) = none := by
  induction d with
  | nil => rfl
  | cons pair rest ih =>
    obtain ⟨k, v⟩ := pair
    by_cases h : k = key
    · simpa [erase, h] using ih
    · simpa [erase, h, find?] using ih

theorem find?_erase_of_ne {key other : String} (h : other ≠ key) (d : Dict α) :
    find? other (erase key d) = find? other d := by
  induction d with
  | nil => rfl
  | cons pair rest ih =>
    obtain ⟨k, v⟩ := pair
    by_cases hk : k = key
    · have hko : k ≠ other := fun e => h (e.symm.trans hk)
      simpa [erase, find?, hk, hko, Ne.symm h] using ih
    · by_cases hko : k = other
      · simp [erase, find?, hko, h]
      · simpa [erase, hk, find?, hko] using ih

/-! ### Two keys -/

theorem insert_comm_of_lt {key other : String} (h : key < other) (value value' : α) (d : Dict α) :
    insert key value (insert other value' d) = insert other value' (insert key value d) := by
  have hne : key ≠ other := Std.ne_of_lt h
  have hback : ¬ other < key := String.lt_asymm h
  induction d with
  | nil => simp [insert, hne, hne.symm, h, hback]
  | cons pair rest ih =>
    obtain ⟨k, v⟩ := pair
    by_cases hother : other = k
    · subst hother
      simp [insert, hne, hne.symm, h, hback]
    · by_cases hlt : other < k
      · -- both keys come before everything that is there
        have hkey : key < k := String.lt_trans h hlt
        have hkne : key ≠ k := Std.ne_of_lt hkey
        simp [insert, hother, hlt, hne, hne.symm, h, hback, hkey, hkne]
      · by_cases hkey : key = k
        · subst hkey
          simp [insert, hother, hlt]
        · by_cases hkeylt : key < k
          · simp [insert, hother, hlt, hkey, hkeylt, hne.symm, hback]
          · simp [insert, hother, hlt, hkey, hkeylt, ih]

/-- Writing under two keys gives the same in either order. -/
theorem insert_comm {key other : String} (h : key ≠ other) (value value' : α) (d : Dict α) :
    insert key value (insert other value' d) = insert other value' (insert key value d) := by
  by_cases hlt : key < other
  · exact insert_comm_of_lt hlt value value' d
  · have hgt : other < key := Std.lt_of_le_of_ne (String.not_lt.1 hlt) h.symm
    exact (insert_comm_of_lt hgt value' value d).symm

/-! ### The key order -/

theorem mem_insert {key : String} {value : α} {d : Dict α} {pair : String × α}
    (h : pair ∈ insert key value d) : pair = (key, value) ∨ pair ∈ d := by
  induction d with
  | nil => simpa [insert] using h
  | cons head rest ih =>
    obtain ⟨k, v⟩ := head
    by_cases heq : key = k
    · simp only [insert, heq, if_true, List.mem_cons] at h ⊢
      rcases h with h | h
      · exact .inl h
      · exact .inr (.inr h)
    · by_cases hlt : key < k
      · simpa [insert, heq, hlt] using h
      · simp only [insert, heq, hlt, if_false, List.mem_cons] at h ⊢
        rcases h with h | h
        · exact .inr (.inl h)
        · rcases ih h with h | h
          · exact .inl h
          · exact .inr (.inr h)

/-- Writing keeps the keys strictly increasing. -/
theorem Sorted.insert {d : Dict α} (h : Sorted d) (key : String) (value : α) :
    Sorted (Dict.insert key value d) := by
  induction d with
  | nil => simp [Dict.insert, Sorted]
  | cons head rest ih =>
    obtain ⟨k, v⟩ := head
    obtain ⟨hhead, hrest⟩ := List.pairwise_cons.1 h
    by_cases heq : key = k
    · subst heq
      simpa [Dict.insert, Sorted] using And.intro hhead hrest
    · by_cases hlt : key < k
      · simp only [Dict.insert, heq, hlt, if_true, if_false, Sorted]
        refine List.pairwise_cons.2 ⟨fun pair hpair => ?_, h⟩
        rcases List.mem_cons.1 hpair with rfl | hpair
        · exact hlt
        · exact String.lt_trans hlt (hhead pair hpair)
      · simp only [Dict.insert, heq, hlt, if_false, Sorted]
        refine List.pairwise_cons.2 ⟨fun pair hpair => ?_, ih hrest⟩
        rcases mem_insert hpair with rfl | hpair
        · exact Std.lt_of_le_of_ne (String.not_lt.1 hlt) (Ne.symm heq)
        · exact hhead pair hpair

/-- Removing keeps the keys strictly increasing. -/
theorem Sorted.erase {d : Dict α} (h : Sorted d) (key : String) : Sorted (Dict.erase key d) :=
  h.filter _

/-- A dictionary built by writing has strictly increasing keys. -/
theorem sorted_ofList (pairs : List (String × α)) : Sorted (ofList pairs) := by
  suffices ∀ d : Dict α, Sorted d →
      Sorted (pairs.foldl (fun d pair => insert pair.1 pair.2 d) d) from this [] List.Pairwise.nil
  induction pairs with
  | nil => exact fun _ h => h
  | cons pair rest ih => exact fun d h => ih _ (h.insert pair.1 pair.2)

end Dict

/-! ### Sets of names -/

/-- A finite set of names, listed in increasing order. -/
structure NameSet where
  toList : List String
  sorted : toList.Pairwise (· < ·) := by simp
deriving DecidableEq

namespace NameSet

/-- The set without a name. -/
def empty : NameSet := { toList := [] }

/-- The names of a list, each once. -/
def ofList (names : List String) : NameSet where
  toList := (Dict.ofList (names.map fun name => (name, ()))).keys
  sorted := List.Pairwise.map _ (fun _ _ h => h) (Dict.sorted_ofList _)

instance : Membership String NameSet := ⟨fun names name => name ∈ names.toList⟩

instance (name : String) (names : NameSet) : Decidable (name ∈ names) :=
  inferInstanceAs (Decidable (name ∈ names.toList))

end NameSet

end ExchangePipeline
