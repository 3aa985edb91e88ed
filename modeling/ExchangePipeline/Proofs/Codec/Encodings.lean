/-
  ExchangePipeline/Proofs/Codec/Encodings.lean
  ============================================
  **What it is for a tree to be an encoded form of a value.**

  The tree is printable, so that its text is read back, and wherever there are
  levels enough to nest it, the decoder returns the value (`Encodes`).  Each way of
  building decoders has one rule for building such trees: scalars, arrays, sets of
  names, names of alternatives, and records, whose fields are filled in one after the
  other (`Fills`).
-/
import ExchangePipeline.Codec.Records
import ExchangePipeline.Proofs.Json.Texts

namespace ExchangePipeline

namespace Json

mutual

/-- How deep arrays and objects are nested in a tree. -/
def nesting : Json → Nat
  | .array items _ => itemsNesting items + 1
  | .object fields _ => fieldsNesting fields + 1
  | .null => 0
  | .bool _ => 0
  | .number _ => 0
  | .string _ => 0
  | .broken => 0

/-- How deep they are nested in the deepest item. -/
def itemsNesting : List Json → Nat
  | [] => 0
  | item :: rest => max item.nesting (itemsNesting rest)

/-- How deep they are nested in the deepest field. -/
def fieldsNesting : List (Option String × Json) → Nat
  | [] => 0
  | (_, value) :: rest => max value.nesting (fieldsNesting rest)

end

theorem itemsNesting_le_iff {items : List Json} {depth : Nat} :
    itemsNesting items ≤ depth ↔ ∀ item ∈ items, item.nesting ≤ depth := by
  induction items with
  | nil => simp [itemsNesting]
  | cons item rest ih => rw [itemsNesting, Nat.max_le, ih, List.forall_mem_cons]

theorem fieldsNesting_le_iff {fields : List (Option String × Json)} {depth : Nat} :
    fieldsNesting fields ≤ depth ↔ ∀ field ∈ fields, field.2.nesting ≤ depth := by
  induction fields with
  | nil => simp [fieldsNesting]
  | cons field rest ih => rw [fieldsNesting, Nat.max_le, ih, List.forall_mem_cons]

end Json

/-- A tree is an encoded form of a value. -/
structure Encodes {α : Type} (decoder : Decoder α) (j : Json) (a : α) : Prop where
  /-- Its text is read back. -/
  printable : j.Printable
  /-- It is decoded, where there are levels enough. -/
  decodes : ∀ manner depth, j.nesting ≤ depth → decoder manner depth j = .ok a

namespace Encodes

variable {α β π : Type}

/-- **The text** of an encoded form is decoded, if it is not nested too deep. -/
theorem decodeText {decoder : Decoder α} {j : Json} {a : α} (h : Encodes decoder j a)
    (hdepth : j.nesting ≤ nestingLimit) : Json.decodeText decoder j.print = .ok a := by
  rw [Json.decodeText, Json.read_print h.printable]
  simp [h.decodes .streamed nestingLimit hdepth]

/-! ### Scalars -/

theorem string (s : String) : Encodes Decoder.string (Json.text s) s :=
  ⟨rfl, fun _ _ _ => rfl⟩

theorem bool (b : Bool) : Encodes Decoder.bool (.bool b) b :=
  ⟨trivial, fun _ _ _ => rfl⟩

/-- An integer within bounds that fit in 64 bits, signed or unsigned. -/
theorem integer {low high i : Int} (hlow : low ≤ i) (hhigh : i < high)
    (hmin : -Int.pow 2 63 ≤ low) (hmax : high ≤ Int.pow 2 64) :
    Encodes (Decoder.integer low high) (Json.integer i) i :=
  ⟨⟨Int.le_trans hmin hlow, Int.lt_of_lt_of_le hhigh hmax⟩,
    fun _ _ _ => if_pos ⟨hlow, hhigh⟩⟩

/-- Decoding through a function. -/
theorem map {decoder : Decoder α} {j : Json} {a : α} (h : Encodes decoder j a) (f : α → β) :
    Encodes (fun manner depth j => (decoder manner depth j).map f) j (f a) where
  printable := h.printable
  decodes manner depth hdepth := by
    rw [h.decodes manner depth hdepth]
    rfl

/-- An alternative without content is its name. -/
theorem unit {ofName? : String → Option α} {name : String} {a : α} (h : ofName? name = some a) :
    Encodes (Decoder.unit ofName?) (Json.text name) a where
  printable := rfl
  decodes manner depth _ := by
    rw [Json.text, Decoder.unit, h]

/-! ### Arrays -/

theorem items_map {encode : α → Json} {item : Json → Except DecodeError α} {as : List α}
    (h : ∀ a ∈ as, item (encode a) = .ok a) : Decoder.items item (as.map encode) = .ok as := by
  induction as with
  | nil => rfl
  | cons a as ih =>
    rw [List.forall_mem_cons] at h
    rw [List.map_cons, Decoder.items, h.1, ih h.2]
    rfl

theorem printable_list {encode : α → Json} {decoder : Decoder α} {as : List α}
    (h : ∀ a ∈ as, Encodes decoder (encode a) a) : (Json.list (as.map encode)).Printable := by
  refine ⟨rfl, Json.allPrintable_iff.2 fun item hitem => ?_⟩
  obtain ⟨a, ha, rfl⟩ := List.mem_map.1 hitem
  exact (h a ha).printable

/-- The items of an encoded list. -/
theorem items {encode : α → Json} {decoder : Decoder α} {as : List α}
    (h : ∀ a ∈ as, Encodes decoder (encode a) a) (manner : Manner) {depth : Nat}
    (hdepth : Json.itemsNesting (as.map encode) ≤ depth) :
    Decoder.items (decoder manner depth) (as.map encode) = .ok as :=
  items_map fun a ha => (h a ha).decodes manner depth
    (Json.itemsNesting_le_iff.1 hdepth _ (List.mem_map_of_mem ha))

/-- **A list**, given its items. -/
theorem list {encode : α → Json} {decoder : Decoder α} {as : List α}
    (h : ∀ a ∈ as, Encodes decoder (encode a) a) :
    Encodes (Decoder.list decoder) (Json.list (as.map encode)) as where
  printable := printable_list h
  decodes manner depth hdepth := by
    obtain ⟨depth, rfl⟩ : ∃ k, depth = k + 1 := ⟨depth - 1, by
      rw [Json.list, Json.nesting] at hdepth
      omega⟩
    rw [Json.list, Decoder.list, items h manner (Nat.le_of_succ_le_succ hdepth)]
    rfl

theorem names (names : List String) :
    Encodes (Decoder.list Decoder.string) (encodeNames names) names :=
  .list fun name _ => .string name

end Encodes

/-! ### Dictionaries and sets -/

/-- What is greater than all keys goes to the end. -/
theorem Dict.insert_of_forall_lt {α : Type} {key : String} {d : Dict α} (value : α)
    (h : ∀ pair ∈ d, pair.1 < key) : Dict.insert key value d = d ++ [(key, value)] := by
  induction d with
  | nil => rfl
  | cons pair rest ih =>
    rw [List.forall_mem_cons] at h
    have hlt : ¬key < pair.1 := String.lt_asymm h.1
    have hne : key ≠ pair.1 := (Std.ne_of_lt h.1).symm
    rw [Dict.insert, if_neg hne, if_neg hlt, ih h.2, List.cons_append]

/-- **A sorted list of pairs** is the dictionary that is built from it. -/
theorem Dict.foldl_insert_of_sorted {α : Type} {pairs : List (String × α)} {d : Dict α}
    (h : Dict.Sorted (d ++ pairs)) :
    pairs.foldl (fun d pair => Dict.insert pair.1 pair.2 d) d = d ++ pairs := by
  induction pairs generalizing d with
  | nil => simp
  | cons pair rest ih =>
    have hlt : ∀ other ∈ d, other.1 < pair.1 := fun other hother =>
      (List.pairwise_append.1 h).2.2 other hother pair List.mem_cons_self
    rw [List.foldl_cons, Dict.insert_of_forall_lt pair.2 hlt, ih (by simpa using h)]
    simp

theorem Dict.ofList_of_sorted {α : Type} {pairs : List (String × α)} (h : Dict.Sorted pairs) :
    Dict.ofList pairs = pairs :=
  Dict.foldl_insert_of_sorted (d := []) h

theorem NameSet.ofList_toList (names : NameSet) : NameSet.ofList names.toList = names := by
  have hsorted : Dict.Sorted (names.toList.map fun name => (name, ())) :=
    List.pairwise_map.2 names.sorted
  obtain ⟨toList, sorted⟩ := names
  simp only [NameSet.ofList, Dict.ofList_of_sorted hsorted, Dict.keys, List.map_map,
    Function.comp_def, List.map_id']

/-- **A set of names**, of any size. -/
theorem Encodes.nameSet (names : NameSet) :
    Encodes Decoder.nameSet (encodeNames names.toList) names where
  printable := (Encodes.names names.toList).printable
  decodes manner depth hdepth := by
    rw [Decoder.nameSet, (Encodes.names names.toList).decodes manner depth hdepth]
    exact congrArg Except.ok names.ofList_toList

/-! ### Records -/

section

variable {α π : Type} {f : RecordFormat π α}

/-- Fields that fill in a record, one after the other. -/
inductive Fills (f : RecordFormat π α) : List (String × Json) → π → π → Prop where
  | nil (p : π) : Fills f [] p p
  | cons {key : String} {j : Json} {fields : List (String × Json)} {p q r : π}
      (known : key ∈ f.fields) (fill : Encodes (f.read key p) j q) (rest : Fills f fields q r) :
      Fills f ((key, j) :: fields) p r

/-- A field that is not filled in yet. -/
theorem Fills.once {β : Type} {decoder : Decoder β} {key : String} {j : Json} {b : β}
    {fields : List (String × Json)} {p r : π} {fill : β → π} (h : Encodes decoder j b)
    (hread : f.read key p = readOnce key none decoder fill) (rest : Fills f fields (fill b) r)
    (known : key ∈ f.fields := by decide) : Fills f ((key, j) :: fields) p r :=
  .cons known (hread ▸ h.map fill) rest

theorem Fills.printable {fields : List (String × Json)} {p r : π} (h : Fills f fields p r) :
    (Json.record fields).Printable := by
  refine ⟨rfl, ?_⟩
  induction h with
  | nil => trivial
  | cons _ fill _ ih => exact ⟨rfl, fill.printable, ih⟩

theorem Fills.readFields {fields : List (String × Json)} {p r : π} (h : Fills f fields p r)
    (manner : Manner) {depth : Nat}
    (hdepth : Json.fieldsNesting (fields.map fun field => (some field.1, field.2)) ≤ depth) :
    f.readFields manner depth (fields.map fun field => (some field.1, field.2)) p = .ok r := by
  induction h with
  | nil => rfl
  | cons known fill _ ih =>
    rw [List.map_cons, Json.fieldsNesting, Nat.max_le] at hdepth
    rw [List.map_cons, RecordFormat.readFields, if_pos known, fill.decodes manner depth hdepth.1]
    exact ih hdepth.2

/-- **A record**, given its fields. -/
theorem Encodes.record {fields : List (String × Json)} {p : π} {a : α}
    (hfields : Fills f fields f.blank p) (hfinish : f.finish p = .ok a) :
    Encodes f.decode (Json.record fields) a where
  printable := hfields.printable
  decodes manner depth hdepth := by
    obtain ⟨depth, rfl⟩ : ∃ k, depth = k + 1 := ⟨depth - 1, by
      rw [Json.record, Json.nesting] at hdepth
      omega⟩
    rw [Json.record, RecordFormat.decode,
      hfields.readFields manner (Nat.le_of_succ_le_succ hdepth)]
    exact hfinish

end

end ExchangePipeline
