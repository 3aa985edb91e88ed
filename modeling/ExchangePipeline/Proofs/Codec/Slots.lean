/-
  ExchangePipeline/Proofs/Codec/Slots.lean
  ========================================
  **Records whose fields come in any order.**

  A record format reads each of its fields into a slot of its own (`ReadsInto`).  So an
  object that gives every known field once at most, in any order and among unknown
  ones, is read as the draft that holds exactly what is given
  (`ReadsInto.decode_record`).  The induction is on the fields; what carries it is that
  each slot holds what it will hold, or waits for a field that is still to come
  (`Awaits`).

  Whether a value decodes does not depend on where it stands, as long as there are as
  many levels left as its decoder takes (`Decoder.Shallow`).
-/
import Mathlib.Data.List.Nodup
import ExchangePipeline.Codec
import ExchangePipeline.Proofs.Json.Tidying

namespace ExchangePipeline

/-! ### What an object gives -/

section

variable {β π : Type} {decoder : Decoder β} {manner : Manner} {depth : Nat} {name key : String}
  {fields : List (String × Json)} {given slot target : Option β} {j : Json}

/-- What an object gives under a name: nothing if the name does not occur, and otherwise what the
    one value decodes to that it has. -/
inductive Gives (decoder : Decoder β) (manner : Manner) (depth : Nat) (name : String)
    (fields : List (String × Json)) : Option β → Prop
  | absent (absent : ∀ field ∈ fields, field.1 ≠ name) : Gives decoder manner depth name fields none
  | present {before after : List (String × Json)} {value : Json} {b : β}
      (split : fields = before ++ (name, value) :: after)
      (once : ∀ field ∈ before ++ after, field.1 ≠ name)
      (decodes : decoder manner depth value = .ok b) :
      Gives decoder manner depth name fields (some b)

theorem Gives.of_mem (h : Gives decoder manner depth name fields given)
    (hmem : (name, j) ∈ fields) : ∃ b, given = some b ∧ decoder manner depth j = .ok b := by
  rcases h with habsent | ⟨rfl, honce, hdecodes⟩
  · exact absurd rfl (habsent _ hmem)
  · rcases List.mem_append.1 hmem with hmem | hmem
    · exact absurd rfl (honce _ (List.mem_append_left _ hmem))
    · rcases List.mem_cons.1 hmem with heq | hmem
      · cases heq
        exact ⟨_, rfl, hdecodes⟩
      · exact absurd rfl (honce _ (List.mem_append_right _ hmem))

theorem Gives.of_cons_of_ne (h : Gives decoder manner depth name ((key, j) :: fields) given)
    (hne : key ≠ name) : Gives decoder manner depth name fields given := by
  rcases h with habsent | ⟨hsplit, honce, hdecodes⟩
  · exact .absent fun field hfield => habsent field (List.mem_cons_of_mem _ hfield)
  · rename_i before after value b
    rcases before with - | ⟨first, before⟩
    · cases hsplit
      exact absurd rfl hne
    · cases hsplit
      exact .present rfl (fun field hfield => honce field (List.mem_cons_of_mem _ hfield)) hdecodes

theorem Gives.of_cons_self (h : Gives decoder manner depth name ((name, j) :: fields) given) :
    ∃ b, given = some b ∧ decoder manner depth j = .ok b ∧ ∀ field ∈ fields, field.1 ≠ name := by
  obtain ⟨b, rfl, hdecodes⟩ := h.of_mem List.mem_cons_self
  refine ⟨b, rfl, hdecodes, ?_⟩
  rcases h with - | ⟨hsplit, honce, -⟩
  rename_i before after value
  rcases before with - | ⟨first, before⟩
  · cases hsplit
    simpa using honce
  · cases hsplit
    exact absurd rfl (honce _ List.mem_cons_self)

theorem exists_gives (honce : (Dict.keys fields).count name ≤ 1)
    (hvalue : ∀ j, (name, j) ∈ fields → ∃ b, decoder manner depth j = .ok b) :
    ∃ given, Gives decoder manner depth name fields given := by
  by_cases hname : name ∈ Dict.keys fields
  · obtain ⟨⟨name, j⟩, hmem, rfl⟩ := List.mem_map.1 hname
    obtain ⟨b, hdecodes⟩ := hvalue j hmem
    obtain ⟨before, after, rfl⟩ := List.append_of_mem hmem
    refine ⟨some b, .present rfl (fun field hfield heq => ?_) hdecodes⟩
    have hrest : name ∈ Dict.keys (before ++ after) := List.mem_map.2 ⟨field, hfield, heq⟩
    have hcount : 0 < (Dict.keys (before ++ after)).count name := List.count_pos_iff.2 hrest
    simp only [Dict.keys, List.map_append, List.map_cons, List.count_append,
      List.count_cons_self] at honce hcount
    omega
  · exact ⟨none, .absent fun field hfield heq => hname (heq ▸ List.mem_map_of_mem hfield)⟩

/-- A dictionary gives what the list gives that it is made from. -/
theorem Gives.ofList (h : Gives decoder manner depth name fields given) :
    Gives decoder manner depth name (Dict.ofList fields) given := by
  rcases h with habsent | ⟨hsplit, honce, hdecodes⟩
  · exact .absent fun field hfield => habsent field (Dict.mem_of_mem_ofList hfield)
  · rename_i before after value b
    have hkey : name ∈ Dict.keys (Dict.ofList fields) := by
      rw [Dict.mem_keys_ofList, hsplit]
      simp [Dict.keys]
    obtain ⟨⟨key, other⟩, hother, rfl⟩ := List.mem_map.1 hkey
    obtain ⟨b', heq, hother'⟩ := (Gives.present hsplit honce hdecodes).of_mem
      (Dict.mem_of_mem_ofList hother)
    cases heq
    obtain ⟨front, back, hplace⟩ := List.append_of_mem hother
    refine .present hplace (fun field hfield heq => ?_) hother'
    have hnodup := (Dict.sorted_ofList fields).nodup_keys
    rw [hplace, Dict.keys, List.map_append, List.map_cons, List.nodup_middle, List.nodup_cons,
      ← List.map_append] at hnodup
    exact hnodup.1 (heq ▸ List.mem_map_of_mem hfield)

/-! ### Slots -/

/-- What is still to come into a slot: the fields give what it will hold, or it holds that
    already and is not named any more. -/
def Awaits (decoder : Decoder β) (manner : Manner) (depth : Nat) (name : String)
    (fields : List (String × Json)) (slot target : Option β) : Prop :=
  (slot = none ∧ Gives decoder manner depth name fields target) ∨
    (slot = target ∧ ∀ field ∈ fields, field.1 ≠ name)

theorem Awaits.eq_of_nil (h : Awaits decoder manner depth name [] slot target) : slot = target := by
  rcases h with ⟨rfl, hgives⟩ | ⟨rfl, -⟩
  · rcases hgives with - | ⟨hsplit, -, -⟩
    · rfl
    · simp at hsplit
  · rfl

theorem Awaits.skip (h : Awaits decoder manner depth name ((key, j) :: fields) slot target)
    (hne : key ≠ name) : Awaits decoder manner depth name fields slot target := by
  rcases h with ⟨rfl, hgives⟩ | ⟨rfl, habsent⟩
  · exact Or.inl ⟨rfl, hgives.of_cons_of_ne hne⟩
  · exact Or.inr ⟨rfl, fun field hfield => habsent field (List.mem_cons_of_mem _ hfield)⟩

theorem Awaits.read (h : Awaits decoder manner depth name ((name, j) :: fields) slot target)
    (fill : β → π) :
    ∃ b, readOnce name slot decoder fill manner depth j = .ok (fill b) ∧
      Awaits decoder manner depth name fields (some b) target := by
  rcases h with ⟨rfl, hgives⟩ | ⟨-, habsent⟩
  · obtain ⟨b, rfl, hdecodes, habsent⟩ := hgives.of_cons_self
    refine ⟨b, ?_, Or.inr ⟨rfl, habsent⟩⟩
    rw [readOnce, hdecodes]
    rfl
  · exact absurd rfl (habsent _ List.mem_cons_self)

end

/-- A place in a draft for what is read under a name. -/
structure Slot (π : Type) where
  Content : Type
  name : String
  decoder : Decoder Content
  get : π → Option Content
  fill : π → Content → π

/-- Every field for which there is a slot is given once at most, and what it is given decodes. -/
def Fitting {π : Type} (slots : List (Slot π)) (manner : Manner) (depth : Nat)
    (fields : List (String × Json)) : Prop :=
  ∀ slot ∈ slots, (Dict.keys fields).count slot.name ≤ 1 ∧
    ∀ j, (slot.name, j) ∈ fields → ∃ a, slot.decoder manner depth j = .ok a

theorem fitting_iff {π : Type} {slots : List (Slot π)} {manner : Manner} {depth : Nat}
    {fields : List (String × Json)} :
    Fitting slots manner depth fields ↔ ∀ slot ∈ slots,
      (Dict.keys fields).count slot.name ≤ 1 ∧ ∀ field ∈ fields, field.1 = slot.name →
        (slot.decoder manner depth field.2).isOk = true := by
  have hok : ∀ {β : Type} (result : Except DecodeError β),
      (∃ b, result = .ok b) ↔ result.isOk = true := by
    rintro β (error | b)
    · simp [Except.isOk, Except.toBool]
    · simp [Except.isOk, Except.toBool]
  simp only [Fitting, hok]
  refine forall₂_congr fun slot _ => and_congr_right fun _ => ?_
  constructor
  · rintro h ⟨name, j⟩ hmem rfl
    exact h j hmem
  · intro h j hmem
    exact h _ hmem rfl

instance {π : Type} (slots : List (Slot π)) (manner : Manner) (depth : Nat)
    (fields : List (String × Json)) : Decidable (Fitting slots manner depth fields) :=
  decidable_of_iff _ fitting_iff.symm

/-- A format reads each field into a slot of its own, and the slots are all that a draft holds. -/
structure RecordFormat.ReadsInto {π α : Type} (f : RecordFormat π α) (slots : List (Slot π)) :
    Prop where
  names : f.fields = slots.map Slot.name
  distinct : (slots.map Slot.name).Nodup
  read : ∀ slot ∈ slots, ∀ p, f.read slot.name p =
    readOnce slot.name (slot.get p) slot.decoder (slot.fill p)
  blank : ∀ slot ∈ slots, slot.get f.blank = none
  get_fill : ∀ slot ∈ slots, ∀ p a, slot.get (slot.fill p a) = some a
  get_fill_of_ne : ∀ slot ∈ slots, ∀ other ∈ slots, slot.name ≠ other.name →
    ∀ p a, other.get (slot.fill p a) = other.get p
  ext : ∀ p q, (∀ slot ∈ slots, slot.get p = slot.get q) → p = q

namespace RecordFormat.ReadsInto

variable {π α : Type} {f : RecordFormat π α} {slots : List (Slot π)} {manner : Manner}
  {depth : Nat} {fields : List (String × Json)} {d : π}

theorem readFields_of_awaits (h : f.ReadsInto slots) {p : π}
    (hawaits : ∀ slot ∈ slots,
      Awaits slot.decoder manner depth slot.name fields (slot.get p) (slot.get d))
    (hintact : ∀ field ∈ fields, field.2.intact = true) :
    f.readFields manner depth (fields.map fun field => (some field.1, field.2)) p = .ok d := by
  induction fields generalizing p with
  | nil => exact congrArg Except.ok (h.ext p d fun slot hslot => (hawaits slot hslot).eq_of_nil)
  | cons field rest ih =>
    obtain ⟨key, j⟩ := field
    rw [List.forall_mem_cons] at hintact
    rw [List.map_cons, readFields]
    by_cases hkey : key ∈ f.fields
    · rw [h.names] at hkey
      obtain ⟨slot, hslot, rfl⟩ := List.mem_map.1 hkey
      obtain ⟨b, hread, hdone⟩ := (hawaits slot hslot).read (slot.fill p)
      rw [if_pos (h.names ▸ hkey), h.read slot hslot, hread]
      apply ih _ hintact.2
      intro other hother
      by_cases hname : slot.name = other.name
      · cases List.inj_on_of_nodup_map h.distinct hslot hother hname
        rwa [h.get_fill slot hslot]
      · rw [h.get_fill_of_ne slot hslot other hother hname]
        exact (hawaits other hother).skip hname
    · rw [if_neg hkey, if_pos hintact.1]
      apply ih _ hintact.2
      intro slot hslot
      apply (hawaits slot hslot).skip
      rintro rfl
      exact hkey (h.names ▸ List.mem_map_of_mem hslot)

/-- **An object is read as what it gives**, in whatever order its fields come. -/
theorem decode_record (h : f.ReadsInto slots)
    (hd : ∀ slot ∈ slots, Gives slot.decoder manner depth slot.name fields (slot.get d))
    (hintact : (Json.record fields).intact = true) :
    f.decode manner (depth + 1) (Json.record fields) = f.finish d := by
  have hread : f.readFields manner depth (fields.map fun field => (some field.1, field.2)) f.blank =
      .ok d := by
    apply h.readFields_of_awaits _ (Json.intact_record.1 hintact)
    intro slot hslot
    exact Or.inl ⟨h.blank slot hslot, hd slot hslot⟩
  rw [Json.record, decode, hread]
  rfl

end RecordFormat.ReadsInto

/-! ### Decoders that take few levels -/

section

variable {α β π : Type} {n : Nat} {decoder : Decoder β} {f : RecordFormat π α}

/-- A decoder for which more than `n` levels make no difference. -/
def Decoder.Shallow (n : Nat) (decoder : Decoder β) : Prop :=
  ∀ manner depth j, n ≤ depth → decoder manner depth j = decoder manner n j

theorem Decoder.Shallow.mono (h : decoder.Shallow n) {m : Nat} (hm : n ≤ m) :
    decoder.Shallow m := by
  intro manner depth j hdepth
  rw [h manner depth j (Nat.le_trans hm hdepth), h manner m j hm]

theorem Decoder.shallow_string : Decoder.Shallow 0 Decoder.string := by
  intro manner depth j _
  rcases j with - | - | - | (- | s) | - | - | -
  all_goals rfl

theorem Decoder.shallow_names : Decoder.Shallow 1 (Decoder.list Decoder.string) := by
  intro manner depth j hdepth
  obtain ⟨depth, rfl⟩ := Nat.exists_eq_add_of_le' hdepth
  have hitem : Decoder.string manner depth = Decoder.string manner 0 :=
    funext fun j => shallow_string manner depth j (Nat.zero_le depth)
  cases j with
  | array items closed => rw [list, list, hitem]
  | _ => rfl

theorem Decoder.shallow_unit (ofName? : String → Option β) :
    Decoder.Shallow 1 (Decoder.unit ofName?) := by
  intro manner depth j hdepth
  obtain ⟨depth, rfl⟩ := Nat.exists_eq_add_of_le' hdepth
  rcases j with - | - | - | (- | s) | - | - | -
  all_goals rfl

theorem shallow_readOnce (h : decoder.Shallow n) (name : String) (slot : Option β)
    (fill : β → π) : Decoder.Shallow n (readOnce name slot decoder fill) := by
  intro manner depth j hdepth
  simp only [readOnce, h manner depth j hdepth]

/-- Records take one level more than their fields. -/
theorem RecordFormat.shallow_decode (h : ∀ key p, Decoder.Shallow n (f.read key p)) :
    Decoder.Shallow (n + 1) f.decode := by
  intro manner depth j hdepth
  obtain ⟨depth, rfl⟩ : ∃ k, depth = k + 1 := ⟨depth - 1, by omega⟩
  have hle : n ≤ depth := Nat.le_of_succ_le_succ hdepth
  have hfields : ∀ fields p, f.readFields manner depth fields p = f.readFields manner n fields p := by
    intro fields
    induction fields with
    | nil => exact fun _ => rfl
    | cons field rest ih =>
      intro p
      rcases field with ⟨- | key, value⟩
      · rfl
      · simp only [readFields, h key p manner depth value hle, ih]
  have hitems : ∀ items names p,
      f.readItems manner depth names items p = f.readItems manner n names items p := by
    intro items
    induction items with
    | nil => exact fun _ _ => by simp only [readItems]
    | cons item rest ih =>
      rintro (- | ⟨name, names⟩) p
      · rfl
      · simp only [readItems, h name p manner depth item hle, ih]
  cases j with
  | array items closed => simp only [decode, hitems]
  | object fields closed => simp only [decode, hfields]
  | _ => rfl

/-- What an object gives does not depend on more levels than are taken. -/
theorem Gives.of_shallow {manner : Manner} {depth depth' : Nat} {name : String}
    {fields : List (String × Json)} {given : Option β} (hshallow : decoder.Shallow n)
    (h : Gives decoder manner depth name fields given) (hdepth : n ≤ depth) (hdepth' : n ≤ depth') :
    Gives decoder manner depth' name fields given := by
  rcases h with habsent | ⟨hsplit, honce, hdecodes⟩
  · exact .absent habsent
  · refine .present hsplit honce ?_
    rwa [hshallow manner depth' _ hdepth', ← hshallow manner depth _ hdepth]

end

end ExchangePipeline
