/-
  ExchangePipeline/Proofs/Chain/OnePhase.lean
  ===========================================
  **Ordering the handlers of one phase.**

  `Orderable` says, without positions and independently of the order of
  registration, when the handlers of a phase can be put in order at all, and
  `InOrder` says what the result is.  The main statements are that handlers with
  distinct names are put in order exactly when they are orderable
  (`exists_orderPhase_iff`), that what comes out is then in order
  (`orderPhase_inOrder`), and that fewer handlers, registered in any order, stay
  orderable (`Orderable.of_subperm`).

  The proofs go through positions: `orderPositions_ok` and `orderPositions_error`
  say once what the ordering can do, and everything else is read off them.
-/
import ExchangePipeline.Chain.Resolution
import ExchangePipeline.Proofs.Chain.Sorting

namespace ExchangePipeline

variable {β : Type}

/-! ### What a phase asks for -/

/-- Whether a handler leaves both ends of its phase to others. -/
def Link.isInner (link : Link β) : Bool :=
  !link.placement.first && !link.placement.last

/-- One handler that claims both ends of its phase and has it for itself. -/
def Lone (links : List (Link β)) : Prop :=
  ∃ a, links = [a] ∧ a.placement.first = true ∧ a.placement.last = true

/-- No handler has to run, directly or by way of others, before itself. -/
def Acyclic (links : List (Link β)) : Prop :=
  ∀ a, ¬ Relation.TransGen (fun a b => a ∈ links ∧ b ∈ links ∧ a.precedes b = true) a a

/-- The constraints leave the claimed ends alone and admit an order of the other handlers. -/
structure Unobstructed (links : List (Link β)) : Prop where
  none_before_first : ∀ a ∈ links, ∀ b ∈ links, b.placement.first = true → a.precedes b = false
  none_after_last : ∀ a ∈ links, ∀ b ∈ links, a.placement.last = true → a.precedes b = false
  acyclic : Acyclic (links.filter Link.isInner)

/-- The handlers of a phase can be put in order. -/
structure Orderable (links : List (Link β)) : Prop where
  one_first : links.countP (fun a => a.placement.first) ≤ 1
  one_last : links.countP (fun a => a.placement.last) ≤ 1
  /-- Who claims both ends is alone. -/
  alone : ∀ a ∈ links, a.placement.first = true → a.placement.last = true → links = [a]
  unobstructed : ¬ Lone links → Unobstructed links

/-- `ordered` holds the handlers of a phase in an order that grants all claims and constraints. -/
structure InOrder (links ordered : List (Link β)) : Prop where
  perm : ordered.Perm links
  first : ∀ a ∈ ordered, a.placement.first = true → ordered.head? = some a
  last : ∀ a ∈ ordered, a.placement.last = true → ordered.getLast? = some a
  /-- No handler runs behind one that it has to precede. -/
  respects : ordered.Pairwise fun a b => b.precedes a = false

/-! ### Positions -/

theorem mem_precedences {links : List (Link β)} {i j : Nat} :
    (i, j) ∈ precedences links ↔
      ∃ a b, links[i]? = some a ∧ links[j]? = some b ∧ a.precedes b = true := by
  simp only [precedences, List.mem_flatMap, List.mem_map, List.mem_filter, Prod.mk.injEq]
  constructor
  · rintro ⟨⟨a, i'⟩, ha, ⟨b, j'⟩, ⟨hb, hab⟩, rfl, rfl⟩
    exact ⟨a, b, List.mem_zipIdx_iff_getElem?.1 ha, List.mem_zipIdx_iff_getElem?.1 hb, hab⟩
  · rintro ⟨a, b, ha, hb, hab⟩
    exact ⟨(a, i), List.mem_zipIdx_iff_getElem?.2 ha, (b, j),
      ⟨List.mem_zipIdx_iff_getElem?.2 hb, hab⟩, rfl, rfl⟩

/-- The entries with a claim are as many as the handlers with it. -/
theorem length_filter_zipIdx (claims : Link β → Bool) (links : List (Link β)) :
    (links.zipIdx.filter fun entry => claims entry.1).length = links.countP claims := by
  have h : (links.zipIdx.map Prod.fst).countP claims = links.countP claims := by
    rw [List.zipIdx_map_fst]
  rw [List.countP_map] at h
  rw [← h, List.countP_eq_length_filter]
  rfl

/-- A sole claimant is searched for with success if there is at most one. -/
theorem exists_soleClaimant_iff {claims : Link β → Bool} {links : List (Link β)} :
    (∃ found, soleClaimant claims links = .ok found) ↔ links.countP claims ≤ 1 := by
  rw [← length_filter_zipIdx, soleClaimant]
  generalize (links.zipIdx.filter fun entry => claims entry.1) = claimants
  rcases claimants with - | ⟨one, - | ⟨other, rest⟩⟩
  · simp
  · simp
  · simp

/-- The position found is that of the handler with the claim, and there is no other. -/
theorem soleClaimant_ok {claims : Link β → Bool} {links : List (Link β)} {found : Option Nat}
    (h : soleClaimant claims links = .ok found) :
    (∀ i a, links[i]? = some a → (claims a = true ↔ found = some i)) ∧
      ∀ i, found = some i → ∃ a, links[i]? = some a ∧ claims a = true := by
  have hmem : ∀ a i, (a, i) ∈ (links.zipIdx.filter fun entry => claims entry.1) ↔
      links[i]? = some a ∧ claims a = true := by
    intro a i
    rw [List.mem_filter, List.mem_zipIdx_iff_getElem?]
  rw [soleClaimant] at h
  rcases hl : links.zipIdx.filter fun entry => claims entry.1 with - | ⟨one, - | ⟨other, rest⟩⟩
  · rw [hl] at h hmem
    cases h
    refine ⟨?_, by simp⟩
    intro i a ha
    have := hmem a i
    simp [ha] at this
    simp [this]
  · rw [hl] at h hmem
    cases h
    obtain ⟨b, j⟩ := one
    have hb := (hmem b j).1 List.mem_cons_self
    refine ⟨?_, ?_⟩
    · intro i a ha
      have hai := hmem a i
      simp only [List.mem_singleton, Prod.mk.injEq, ha, true_and] at hai
      simp only [Option.some.injEq]
      constructor
      · intro hc
        exact (hai.2 hc).2.symm
      · rintro rfl
        rw [hb.1, Option.some.injEq] at ha
        exact hai.1 ⟨ha.symm, rfl⟩
    · rintro i hi
      cases hi
      exact ⟨b, hb⟩
  · rw [hl] at h
    cases h

/-- The ends are free of conflicts if no constraint leads to the first or from the last one. -/
theorem outerConflict?_eq_none_iff {links : List (Link β)} {first last : Option Nat} :
    outerConflict? links first last = none ↔
      (∀ f, first = some f → ∀ i, (i, f) ∉ precedences links) ∧
        ∀ l, last = some l → ∀ i, (l, i) ∉ precedences links := by
  have hfirst : (first.bind fun f => ((precedences links).find? fun edge => edge.2 = f).map
      fun edge => (f, edge.1)) = none ↔ ∀ f, first = some f → ∀ i, (i, f) ∉ precedences links := by
    cases first with
    | none => simp
    | some f =>
      simp only [Option.bind_some, Option.map_eq_none_iff, List.find?_eq_none, Prod.forall,
        Option.some.injEq, decide_eq_true_eq, forall_eq']
      constructor
      · intro h i hi
        exact h i f hi rfl
      · rintro h i j hij rfl
        exact h i hij
  have hlast : (last.bind fun l => ((precedences links).find? fun edge => edge.1 = l).map
      fun edge => (l, edge.2)) = none ↔ ∀ l, last = some l → ∀ i, (l, i) ∉ precedences links := by
    cases last with
    | none => simp
    | some l =>
      simp only [Option.bind_some, Option.map_eq_none_iff, List.find?_eq_none, Prod.forall,
        Option.some.injEq, decide_eq_true_eq, forall_eq']
      constructor
      · intro h i hi
        exact h l i hi rfl
      · rintro h i j hij rfl
        exact h j hij
  rw [← hfirst, ← hlast, outerConflict?]
  split
  · rename_i f other heq
    simp [heq]
  · rename_i heq
    simp [heq]

theorem mem_innerPositions {links : List (Link β)} {first last : Option Nat} {i : Nat} :
    i ∈ innerPositions links first last ↔ i < links.length ∧ some i ≠ first ∧ some i ≠ last := by
  simp [innerPositions]

theorem nodup_innerPositions (links : List (Link β)) (first last : Option Nat) :
    (innerPositions links first last).Nodup :=
  List.nodup_range.filter _

/-! ### What the ordering can do -/

/-- The positions of the handlers that claim the ends of a phase, if there are any. -/
structure Ends (links : List (Link β)) (first last : Option Nat) : Prop where
  one_first : links.countP (fun link => link.placement.first) ≤ 1
  one_last : links.countP (fun link => link.placement.last) ≤ 1
  first_iff : ∀ i a, links[i]? = some a → (a.placement.first = true ↔ first = some i)
  last_iff : ∀ i a, links[i]? = some a → (a.placement.last = true ↔ last = some i)
  exists_first : ∀ i, first = some i → ∃ a, links[i]? = some a ∧ a.placement.first = true
  exists_last : ∀ i, last = some i → ∃ a, links[i]? = some a ∧ a.placement.last = true

/-- The courses that the ordering of a phase can take, and how each of them ends. -/
inductive Course (links : List (Link β)) : Except Conflict (List Nat) → Prop where
  | rivalsForFirst (a b : String)
      (rivals : ¬ links.countP (fun link => link.placement.first) ≤ 1) :
      Course links (.error (.rivalsForFirst a b))
  | rivalsForLast (a b : String)
      (rivals : ¬ links.countP (fun link => link.placement.last) ≤ 1) :
      Course links (.error (.rivalsForLast a b))
  | notAlone {first last : Option Nat} (name : String) (ends : Ends links first last)
      (both : first = last ∧ first ≠ none) (others : 1 < links.length) :
      Course links (.error (.bothEnds name))
  | alone {first last : Option Nat} (ends : Ends links first last)
      (both : first = last ∧ first ≠ none) (alone : links.length ≤ 1) :
      Course links (.ok (List.range links.length))
  | obstructed {first last : Option Nat} {conflict : Conflict} (ends : Ends links first last)
      (apart : ¬ (first = last ∧ first ≠ none))
      (conflicts : outerConflict? links first last = some conflict) :
      Course links (.error conflict)
  | stuck {first last : Option Nat} {stuck : List Nat} (ends : Ends links first last)
      (apart : ¬ (first = last ∧ first ≠ none)) (free : outerConflict? links first last = none)
      (fails : topologicalOrder (innerPositions links first last) (precedences links) =
        .error stuck) :
      Course links (.error (.cycle (stuck.map (nameAt links))))
  | sorted {first last : Option Nat} {inner : List Nat} (ends : Ends links first last)
      (apart : ¬ (first = last ∧ first ≠ none)) (free : outerConflict? links first last = none)
      (succeeds : topologicalOrder (innerPositions links first last) (precedences links) =
        .ok inner) :
      Course links (.ok (first.toList ++ inner ++ last.toList))

theorem not_le_one_of_soleClaimant_error {claims : Link β → Bool} {links : List (Link β)}
    {rivals : String × String} (h : soleClaimant claims links = .error rivals) :
    ¬ links.countP claims ≤ 1 := by
  intro hle
  obtain ⟨found, hfound⟩ := exists_soleClaimant_iff.2 hle
  rw [h] at hfound
  cases hfound

/-- The ordering takes one of its courses. -/
theorem course_orderPositions (links : List (Link β)) : Course links (orderPositions links) := by
  unfold orderPositions
  cases hfirst : soleClaimant (fun link => link.placement.first) links with
  | error rivals => exact .rivalsForFirst _ _ (not_le_one_of_soleClaimant_error hfirst)
  | ok first =>
    cases hlast : soleClaimant (fun link => link.placement.last) links with
    | error rivals => exact .rivalsForLast _ _ (not_le_one_of_soleClaimant_error hlast)
    | ok last =>
      obtain ⟨hf, hfget⟩ := soleClaimant_ok hfirst
      obtain ⟨hl, hlget⟩ := soleClaimant_ok hlast
      have hends : Ends links first last :=
        ⟨exists_soleClaimant_iff.1 ⟨_, hfirst⟩, exists_soleClaimant_iff.1 ⟨_, hlast⟩, hf, hl,
          hfget, hlget⟩
      simp only [Except.mapError, bind, Except.bind]
      by_cases hboth : first = last ∧ first ≠ none
      · rw [if_pos hboth]
        by_cases hlen : 1 < links.length
        · rw [if_pos hlen]
          exact .notAlone _ hends hboth hlen
        · rw [if_neg hlen]
          exact .alone hends hboth (by omega)
      · rw [if_neg hboth]
        cases houter : outerConflict? links first last with
        | some conflict => exact .obstructed hends hboth houter
        | none =>
          cases hinner : topologicalOrder (innerPositions links first last)
              (precedences links) with
          | error stuck => exact .stuck hends hboth houter hinner
          | ok inner => exact .sorted hends hboth houter hinner

/-! ### The order that comes out -/

/-- The claimants' positions around the inner ones are all positions, each once. -/
theorem perm_positions {links : List (Link β)} {first last : Option Nat}
    (hfirst : ∀ i, first = some i → i < links.length)
    (hlast : ∀ i, last = some i → i < links.length)
    (hboth : ¬ (first = last ∧ first ≠ none)) :
    (first.toList ++ innerPositions links first last ++ last.toList).Perm
      (List.range links.length) := by
  have hinner := nodup_innerPositions links first last
  rw [List.perm_ext_iff_of_nodup _ List.nodup_range]
  · intro i
    simp only [List.mem_append, Option.mem_toList, mem_innerPositions, List.mem_range]
    constructor
    · rintro ((h | h) | h)
      · exact hfirst i h
      · exact h.1
      · exact hlast i h
    · intro hi
      by_cases hf : some i = first
      · exact Or.inl (Or.inl hf.symm)
      · by_cases hl : some i = last
        · exact Or.inr hl.symm
        · exact Or.inl (Or.inr ⟨hi, hf, hl⟩)
  · refine List.Nodup.append (List.Nodup.append ?_ hinner ?_) ?_ ?_
    · cases first <;> simp
    · intro i hi hi'
      exact (mem_innerPositions.1 hi').2.1 (Option.mem_toList.1 hi).symm
    · cases last <;> simp
    · intro i hi hi'
      have hl := Option.mem_toList.1 hi'
      rcases List.mem_append.1 hi with hi | hi
      · have hf := Option.mem_toList.1 hi
        exact hboth ⟨hf.trans hl.symm, by rw [hf]; simp⟩
      · exact (mem_innerPositions.1 hi).2.2 hl.symm

/-- In an order along which edges run forward, no edge runs back. -/
theorem pairwise_of_forward {sorted : List Nat} {edges : List (Nat × Nat)} (hn : sorted.Nodup)
    (h : ∀ m ∈ sorted, ∀ n ∈ sorted, (m, n) ∈ edges → sorted.idxOf m < sorted.idxOf n) :
    sorted.Pairwise fun m n => (n, m) ∉ edges := by
  rw [List.pairwise_iff_getElem]
  intro i j hi hj hij hedge
  have hlt := h _ (List.getElem_mem hj) _ (List.getElem_mem hi) hedge
  rw [hn.idxOf_getElem j hj, hn.idxOf_getElem i hi] at hlt
  omega

/-- What positions in order are. -/
structure PositionsInOrder (links : List (Link β)) (positions : List Nat) : Prop where
  perm : positions.Perm (List.range links.length)
  first : ∀ i a, links[i]? = some a → a.placement.first = true → positions.head? = some i
  last : ∀ i a, links[i]? = some a → a.placement.last = true → positions.getLast? = some i
  respects : positions.Pairwise fun i j => (j, i) ∉ precedences links

/-- The position of a phase with one handler at most. -/
theorem positionsInOrder_alone {links : List (Link β)} (hlen : links.length ≤ 1) :
    PositionsInOrder links (List.range links.length) := by
  match links with
  | [] => exact ⟨List.Perm.refl _, by simp, by simp, List.Pairwise.nil⟩
  | [a] =>
    refine ⟨List.Perm.refl _, ?_, ?_, List.pairwise_singleton _ _⟩
    · rintro (_ | i) b hb _
      · rfl
      · cases hb
    · rintro (_ | i) b hb _
      · rfl
      · cases hb
  | _ :: _ :: _ => simp at hlen

/-- The claimants' positions around sorted inner ones. -/
theorem Ends.positionsInOrder {links : List (Link β)} {first last : Option Nat} {inner : List Nat}
    (h : Ends links first last) (hapart : ¬ (first = last ∧ first ≠ none))
    (hfree : outerConflict? links first last = none)
    (hinner : topologicalOrder (innerPositions links first last) (precedences links) =
      .ok inner) : PositionsInOrder links (first.toList ++ inner ++ last.toList) := by
  have hlt : ∀ i a, links[i]? = some a → i < links.length := fun i a ha =>
    (List.getElem?_eq_some_iff.1 ha).1
  obtain ⟨hnofirst, hnolast⟩ := outerConflict?_eq_none_iff.1 hfree
  obtain ⟨hperm, hforward⟩ := topologicalOrder_ok (nodup_innerPositions _ _ _) hinner
  have hall := @perm_positions _ links _ _
    (fun i hi => (h.exists_first i hi).elim fun a ha => hlt i a ha.1)
    (fun i hi => (h.exists_last i hi).elim fun a ha => hlt i a ha.1) hapart
  refine ⟨?_, ?_, ?_, ?_⟩
  · exact (((List.Perm.refl _).append hperm).append_right _).trans hall
  · intro i a ha hclaim
    rw [(h.first_iff i a ha).1 hclaim]
    rfl
  · intro i a ha hclaim
    rw [(h.last_iff i a ha).1 hclaim]
    simp
  · rw [List.pairwise_append, List.pairwise_append]
    refine ⟨⟨?_, ?_, ?_⟩, ?_, ?_⟩
    · cases first <;> simp
    · apply pairwise_of_forward (hperm.nodup_iff.2 (nodup_innerPositions _ _ _))
      intro m hm n hn hedge
      exact hforward m (hperm.mem_iff.1 hm) n (hperm.mem_iff.1 hn) hedge
    · intro i hi j _
      exact hnofirst i (Option.mem_toList.1 hi) j
    · cases last <;> simp
    · intro i _ j hj
      exact hnolast j (Option.mem_toList.1 hj) i

theorem orderPositions_inOrder {links : List (Link β)} {positions : List Nat}
    (h : orderPositions links = .ok positions) : PositionsInOrder links positions := by
  have hcourse := course_orderPositions links
  rw [h] at hcourse
  cases hcourse with
  | alone _ _ hlen => exact positionsInOrder_alone hlen
  | sorted hends hapart hfree hinner => exact hends.positionsInOrder hapart hfree hinner

/-- The handlers at all positions are all handlers. -/
theorem filterMap_range (links : List (Link β)) :
    (List.range links.length).filterMap (fun i => links[i]?) = links := by
  have hget : ∀ entry ∈ links.zipIdx, links[entry.2]? = some entry.1 := fun entry hentry =>
    List.mem_zipIdx_iff_getElem?.1 hentry
  calc (List.range links.length).filterMap (fun i => links[i]?)
      = (links.zipIdx.map Prod.snd).filterMap (fun i => links[i]?) := by
        rw [List.zipIdx_map_snd, List.range_eq_range']
    _ = links.zipIdx.filterMap (fun entry => links[entry.2]?) := List.filterMap_map
    _ = links.zipIdx.filterMap (fun entry => some entry.1) := List.filterMap_congr hget
    _ = links := by rw [List.filterMap_eq_map', List.zipIdx_map_fst]

/-- **What comes out of the ordering of a phase is in order.** -/
theorem orderPhase_inOrder {phase : String} {links ordered : List (Link β)}
    (h : orderPhase phase links = .ok ordered) : InOrder links ordered := by
  unfold orderPhase at h
  cases hpos : orderPositions links with
  | error conflict =>
    rw [hpos] at h
    cases h
  | ok positions =>
    rw [hpos] at h
    cases h
    have hin := orderPositions_inOrder hpos
    have hperm : (positions.filterMap fun i => links[i]?).Perm links := by
      have := hin.perm.filterMap fun i => links[i]?
      rwa [filterMap_range] at this
    have hmem : ∀ a ∈ positions.filterMap (fun i => links[i]?), ∃ i, links[i]? = some a :=
      fun a ha => List.mem_iff_getElem?.1 (hperm.mem_iff.1 ha)
    refine ⟨hperm, ?_, ?_, ?_⟩
    · intro a ha hclaim
      obtain ⟨i, hi⟩ := hmem a ha
      obtain ⟨rest, rfl⟩ := List.head?_eq_some_iff.1 (hin.first i a hi hclaim)
      simp [hi]
    · intro a ha hclaim
      obtain ⟨i, hi⟩ := hmem a ha
      obtain ⟨rest, rfl⟩ := List.getLast?_eq_some_iff.1 (hin.last i a hi hclaim)
      simp [hi]
    · rw [List.pairwise_filterMap]
      apply hin.respects.imp
      intro i j hij a ha b hb
      rw [Bool.eq_false_iff]
      intro hba
      exact hij (mem_precedences.2 ⟨b, a, hb, ha, hba⟩)

/-! ### When there is an order -/

/-- The position of a handler, found by its name. -/
def positionOf (links : List (Link β)) (a : Link β) : Nat :=
  (links.map Link.name).idxOf a.name

theorem getElem?_positionOf {links : List (Link β)} (hn : (links.map Link.name).Nodup)
    {a : Link β} (ha : a ∈ links) : links[positionOf links a]? = some a := by
  obtain ⟨i, hi, rfl⟩ := List.mem_iff_getElem.1 ha
  have hi' : i < (links.map Link.name).length := by simpa using hi
  have h := hn.idxOf_getElem i hi'
  rw [List.getElem_map] at h
  rw [positionOf, h, List.getElem?_eq_getElem hi]

/-- A relation along which a number grows has no circles. -/
theorem not_transGen_of_rank {α : Type} {r : α → α → Prop} (rank : α → Nat)
    (h : ∀ a b, r a b → rank a < rank b) (a : α) : ¬ Relation.TransGen r a a := by
  have hlt : ∀ b, Relation.TransGen r a b → rank a < rank b := by
    intro b hab
    induction hab with
    | single hab => exact h _ _ hab
    | tail _ hbc ih => exact ih.trans (h _ _ hbc)
  intro haa
  exact (hlt a haa).false

variable {links : List (Link β)} {first last : Option Nat}

/-- Who claims both ends is the claimant of both. -/
theorem Ends.both_of_claims (h : Ends links first last) {a : Link β} (ha : a ∈ links)
    (hafirst : a.placement.first = true) (halast : a.placement.last = true) :
    first = last ∧ first ≠ none := by
  obtain ⟨i, hi⟩ := List.mem_iff_getElem?.1 ha
  have hf := (h.first_iff i a hi).1 hafirst
  have hl := (h.last_iff i a hi).1 halast
  exact ⟨hf.trans hl.symm, by rw [hf]; simp⟩

/-- If both ends have one claimant, a handler claims both. -/
theorem Ends.exists_both (h : Ends links first last) (hboth : first = last ∧ first ≠ none) :
    ∃ a ∈ links, a.placement.first = true ∧ a.placement.last = true := by
  obtain ⟨i, hi⟩ := Option.ne_none_iff_exists'.1 hboth.2
  obtain ⟨a, ha, hafirst⟩ := h.exists_first i hi
  have halast := (h.last_iff i a ha).2 (hboth.1.symm.trans hi)
  exact ⟨a, List.mem_of_getElem? ha, hafirst, halast⟩

/-- The inner positions are those of the inner handlers. -/
theorem Ends.mem_innerPositions_iff (h : Ends links first last) {i : Nat} {a : Link β}
    (ha : links[i]? = some a) : i ∈ innerPositions links first last ↔ a.isInner = true := by
  have hlt := (List.getElem?_eq_some_iff.1 ha).1
  rw [mem_innerPositions]
  simp only [hlt, true_and, Link.isInner, Bool.and_eq_true, Bool.not_eq_true', ne_eq,
    ← Bool.not_eq_true, h.first_iff i a ha, h.last_iff i a ha]
  exact and_congr (not_congr eq_comm) (not_congr eq_comm)

theorem Ends.not_lone (h : Ends links first last) (hapart : ¬ (first = last ∧ first ≠ none)) :
    ¬ Lone links := by
  rintro ⟨a, rfl, hafirst, halast⟩
  exact hapart (h.both_of_claims List.mem_cons_self hafirst halast)

/-- No conflict at the ends means that no constraint leads to the first or from the last one. -/
theorem Ends.outerConflict?_eq_none_iff (h : Ends links first last) :
    outerConflict? links first last = none ↔
      (∀ a ∈ links, ∀ b ∈ links, b.placement.first = true → a.precedes b = false) ∧
        ∀ a ∈ links, ∀ b ∈ links, a.placement.last = true → a.precedes b = false := by
  rw [ExchangePipeline.outerConflict?_eq_none_iff]
  constructor
  · rintro ⟨hnofirst, hnolast⟩
    constructor
    · intro a ha b hb hbfirst
      obtain ⟨i, hi⟩ := List.mem_iff_getElem?.1 ha
      obtain ⟨j, hj⟩ := List.mem_iff_getElem?.1 hb
      rw [Bool.eq_false_iff]
      intro hab
      exact hnofirst j ((h.first_iff j b hj).1 hbfirst) i (mem_precedences.2 ⟨a, b, hi, hj, hab⟩)
    · intro a ha b hb halast
      obtain ⟨i, hi⟩ := List.mem_iff_getElem?.1 ha
      obtain ⟨j, hj⟩ := List.mem_iff_getElem?.1 hb
      rw [Bool.eq_false_iff]
      intro hab
      exact hnolast i ((h.last_iff i a hi).1 halast) j (mem_precedences.2 ⟨a, b, hi, hj, hab⟩)
  · rintro ⟨hnofirst, hnolast⟩
    constructor
    · intro f hf i hedge
      obtain ⟨a, b, ha, hb, hab⟩ := mem_precedences.1 hedge
      have hfalse := hnofirst a (List.mem_of_getElem? ha) b (List.mem_of_getElem? hb)
        ((h.first_iff f b hb).2 hf)
      simp [hab] at hfalse
    · intro l hl j hedge
      obtain ⟨a, b, ha, hb, hab⟩ := mem_precedences.1 hedge
      have hfalse := hnolast a (List.mem_of_getElem? ha) b (List.mem_of_getElem? hb)
        ((h.last_iff l a ha).2 hl)
      simp [hab] at hfalse

/-- The position of an inner handler is an inner position. -/
theorem Ends.position_of_inner (h : Ends links first last) (hn : (links.map Link.name).Nodup)
    {a : Link β} (ha : a ∈ links.filter Link.isInner) :
    links[positionOf links a]? = some a ∧ positionOf links a ∈ innerPositions links first last := by
  obtain ⟨ha, hinner⟩ := List.mem_filter.1 ha
  have hget := getElem?_positionOf hn ha
  exact ⟨hget, (h.mem_innerPositions_iff hget).2 hinner⟩

/-- Handlers that are sorted have no circle: places in the sorted list grow along constraints. -/
theorem Ends.acyclic_of_sorted (h : Ends links first last) (hn : (links.map Link.name).Nodup)
    {inner : List Nat}
    (hinner : topologicalOrder (innerPositions links first last) (precedences links) =
      .ok inner) : Acyclic (links.filter Link.isInner) := by
  obtain ⟨-, hforward⟩ := topologicalOrder_ok (nodup_innerPositions _ _ _) hinner
  apply not_transGen_of_rank fun a => inner.idxOf (positionOf links a)
  rintro a b ⟨ha, hb, hab⟩
  obtain ⟨hgeta, hposa⟩ := h.position_of_inner hn ha
  obtain ⟨hgetb, hposb⟩ := h.position_of_inner hn hb
  exact hforward _ hposa _ hposb (mem_precedences.2 ⟨a, b, hgeta, hgetb, hab⟩)

/-- Handlers that cannot be placed are inner ones, and each waits for another of them. -/
theorem Ends.wait_of_stuck (h : Ends links first last) {stuck : List Nat}
    (hstuck : topologicalOrder (innerPositions links first last) (precedences links) =
      .error stuck) :
    stuck.filterMap (fun i => links[i]?) ≠ [] ∧
      ∀ b ∈ stuck.filterMap (fun i => links[i]?), b ∈ links.filter Link.isInner ∧
        ∃ a ∈ stuck.filterMap (fun i => links[i]?), a.precedes b = true := by
  obtain ⟨hne, hsub, hwait⟩ := topologicalOrder_error (nodup_innerPositions _ _ _) hstuck
  constructor
  · obtain ⟨i, hi⟩ := List.exists_mem_of_ne_nil stuck hne
    have hlt := (mem_innerPositions.1 (hsub hi)).1
    exact List.ne_nil_of_mem (List.mem_filterMap.2 ⟨i, hi, List.getElem?_eq_getElem hlt⟩)
  · intro b hb
    obtain ⟨j, hj, hjb⟩ := List.mem_filterMap.1 hb
    refine ⟨List.mem_filter.2
      ⟨List.mem_of_getElem? hjb, (h.mem_innerPositions_iff hjb).1 (hsub hj)⟩, ?_⟩
    obtain ⟨i, hi, hedge⟩ := hwait j hj
    obtain ⟨a, b', ha, hb', hab⟩ := mem_precedences.1 hedge
    rw [hjb, Option.some.injEq] at hb'
    subst hb'
    exact ⟨a, List.mem_filterMap.2 ⟨i, hi, ha⟩, hab⟩

/-- Handlers that cannot be placed wait for each other in a circle. -/
theorem Ends.not_acyclic_of_stuck (h : Ends links first last) {stuck : List Nat}
    (hstuck : topologicalOrder (innerPositions links first last) (precedences links) =
      .error stuck) : ¬ Acyclic (links.filter Link.isInner) := by
  intro hacyclic
  obtain ⟨hne, hwait⟩ := h.wait_of_stuck hstuck
  obtain ⟨a, -, hcycle⟩ :=
    exists_cycle (r := fun a b => a.precedes b = true) hne fun b hb => (hwait b hb).2
  refine hacyclic a (Relation.TransGen.mono ?_ _ _ hcycle)
  rintro b c ⟨hb, hc, hbc⟩
  exact ⟨(hwait b hb).1, (hwait c hc).1, hbc⟩

/-- Handlers with distinct names get positions exactly when they are orderable. -/
theorem exists_orderPositions_iff (hn : (links.map Link.name).Nodup) :
    (∃ positions, orderPositions links = .ok positions) ↔ Orderable links := by
  have hcourse := course_orderPositions links
  cases hpositions : orderPositions links with
  | error conflict =>
    rw [hpositions] at hcourse
    constructor
    · rintro ⟨positions, h⟩
      cases h
    · intro h
      exfalso
      cases hcourse with
      | rivalsForFirst _ _ rivals => exact rivals h.one_first
      | rivalsForLast _ _ rivals => exact rivals h.one_last
      | notAlone _ ends both others =>
        obtain ⟨a, ha, hafirst, halast⟩ := ends.exists_both both
        rw [h.alone a ha hafirst halast] at others
        exact lt_irrefl 1 others
      | obstructed ends apart conflicts =>
        have hfree := h.unobstructed (ends.not_lone apart)
        have hnone := ends.outerConflict?_eq_none_iff.2
          ⟨hfree.none_before_first, hfree.none_after_last⟩
        rw [hnone] at conflicts
        cases conflicts
      | stuck ends apart _ fails =>
        exact ends.not_acyclic_of_stuck fails (h.unobstructed (ends.not_lone apart)).acyclic
  | ok positions =>
    rw [hpositions] at hcourse
    refine ⟨fun _ => ?_, fun _ => ⟨positions, rfl⟩⟩
    cases hcourse with
    | alone ends both alone =>
      obtain ⟨a, ha, hafirst, halast⟩ := ends.exists_both both
      obtain ⟨b, rfl⟩ := List.length_eq_one_iff.1
        (Nat.le_antisymm alone (List.length_pos_of_mem ha))
      obtain rfl := List.mem_singleton.1 ha
      refine ⟨ends.one_first, ends.one_last, ?_, ?_⟩
      · intro b hb _ _
        rw [List.mem_singleton.1 hb]
      · intro hlone
        exact absurd ⟨a, rfl, hafirst, halast⟩ hlone
    | sorted ends apart free succeeds =>
      obtain ⟨hnofirst, hnolast⟩ := ends.outerConflict?_eq_none_iff.1 free
      refine ⟨ends.one_first, ends.one_last, ?_, ?_⟩
      · intro a ha hafirst halast
        exact absurd (ends.both_of_claims ha hafirst halast) apart
      · intro _
        exact ⟨hnofirst, hnolast, ends.acyclic_of_sorted hn succeeds⟩

/-- **Handlers with distinct names are put in order exactly when they are orderable.** -/
theorem exists_orderPhase_iff {phase : String} (hn : (links.map Link.name).Nodup) :
    (∃ ordered, orderPhase phase links = .ok ordered) ↔ Orderable links := by
  rw [← exists_orderPositions_iff hn, orderPhase]
  cases orderPositions links with
  | error conflict => simp
  | ok positions => simp

/-- If a phase cannot be put in order, the error names it. -/
theorem orderPhase_error {phase : String} {links : List (Link β)} {error : ConfigError}
    (h : orderPhase phase links = .error error) :
    ∃ conflict, error = .phaseConflict phase conflict := by
  unfold orderPhase at h
  cases hpos : orderPositions links with
  | ok positions =>
    rw [hpos] at h
    cases h
  | error conflict =>
    rw [hpos] at h
    cases h
    exact ⟨conflict, rfl⟩

/-! ### Fewer handlers -/

theorem Orderable.nil : Orderable ([] : List (Link β)) := by
  refine ⟨by simp, by simp, by simp, ?_⟩
  intro _
  refine ⟨by simp, by simp, ?_⟩
  apply not_transGen_of_rank fun _ => 0
  rintro a b ⟨ha, -⟩
  cases ha

/-- **Fewer handlers stay orderable**, in whatever order they are registered. -/
theorem Orderable.of_subperm {links fewer : List (Link β)} (h : Orderable links)
    (hsub : fewer.Subperm links) : Orderable fewer := by
  by_cases hlone : Lone links
  · -- of a handler that has the phase for itself, it or nothing is left
    obtain ⟨a, rfl, -⟩ := id hlone
    rcases List.subperm_singleton_iff.1 hsub with rfl | rfl
    · exact Orderable.nil
    · exact h
  · have hsubset := hsub.subset
    have hfree := h.unobstructed hlone
    refine ⟨(hsub.countP_le _).trans h.one_first, (hsub.countP_le _).trans h.one_last, ?_, ?_⟩
    · intro a ha hafirst halast
      have hlinks := h.alone a (hsubset ha) hafirst halast
      exact absurd ⟨a, hlinks, hafirst, halast⟩ hlone
    · intro _
      refine ⟨?_, ?_, ?_⟩
      · intro a ha b hb
        exact hfree.none_before_first a (hsubset ha) b (hsubset hb)
      · intro a ha b hb
        exact hfree.none_after_last a (hsubset ha) b (hsubset hb)
      · intro a hcycle
        refine hfree.acyclic a (Relation.TransGen.mono ?_ _ _ hcycle)
        rintro b c ⟨hb, hc, hbc⟩
        obtain ⟨hb, hbinner⟩ := List.mem_filter.1 hb
        obtain ⟨hc, hcinner⟩ := List.mem_filter.1 hc
        exact ⟨List.mem_filter.2 ⟨hsubset hb, hbinner⟩, List.mem_filter.2 ⟨hsubset hc, hcinner⟩, hbc⟩

end ExchangePipeline
