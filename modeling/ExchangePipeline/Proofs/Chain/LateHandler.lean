/-
  ExchangePipeline/Proofs/Chain/LateHandler.lean
  ==============================================
  **A late handler moves no other.**

  A handler that is registered last, claims neither end of its phase, and need not
  run before any other of the phase comes last among the inner ones: whenever the
  sorting can place it, it can place all that are not placed yet, and they have
  lesser positions.  So the greedy order of the others, with the late one behind
  it, is greedy again (`topologicalOrder_concat`), and there is only one such order.

  From one phase this is carried to the whole chain: the new chain is the old one
  with the late handler at the end of its phase, right before the claimant of the
  last place if there is one (`gainsLate_of_resolve`).
-/
import ExchangePipeline.Proofs.Chain.LeastOrder

namespace ExchangePipeline

/-! ### A last node without successors -/

variable {nodes sorted sorted' : List Nat} {edges edges' : List (Nat × Nat)} {n : Nat}

/-- A greater node with no edge to the others does not disturb their order. -/
theorem Greedy.of_concat_sink (hgreatest : ∀ m ∈ nodes, m < n)
    (hsame : ∀ m ∈ nodes, ∀ k ∈ nodes, (m, k) ∈ edges' ↔ (m, k) ∈ edges)
    (hsink : ∀ m ∈ nodes, (n, m) ∉ edges') (h : Greedy nodes edges sorted) :
    Greedy (nodes ++ [n]) edges' sorted := by
  intro earlier k later hl
  obtain ⟨hmay, hleast⟩ := h earlier k later hl
  have hk : k ∈ nodes := hmay.mem
  refine ⟨⟨List.mem_append_left _ hk, hmay.fresh, ?_⟩, ?_⟩
  · intro m hm hedge
    rcases List.mem_append.1 hm with hm | hm
    · exact hmay.preceded m hm ((hsame m hm k hk).1 hedge)
    · rw [List.mem_singleton.1 hm] at hedge
      exact absurd hedge (hsink k hk)
  · intro m hm
    rcases List.mem_append.1 hm.mem with hmem | hmem
    · refine hleast m ⟨hmem, hm.fresh, fun i hi hedge => ?_⟩
      exact hm.preceded i (List.mem_append_left _ hi) ((hsame i hi m hmem).2 hedge)
    · rw [List.mem_singleton.1 hmem]
      exact Nat.le_of_lt (hgreatest k hk)

/-- When all others are placed, the last node may follow. -/
theorem mayFollow_of_all_placed (hgreatest : ∀ m ∈ nodes, m < n)
    (hmem : ∀ m, m ∈ sorted ↔ m ∈ nodes) (hself : (n, n) ∉ edges') :
    MayFollow (nodes ++ [n]) edges' sorted n := by
  refine ⟨List.mem_append_right _ List.mem_cons_self, ?_, ?_⟩
  · intro hn
    exact lt_irrefl n (hgreatest n ((hmem n).1 hn))
  · intro m hm hedge
    rcases List.mem_append.1 hm with hm | hm
    · exact (hmem m).2 hm
    · rw [List.mem_singleton.1 hm] at hedge
      exact absurd hedge hself

/-- **A last node without successors is placed last**, and the others are placed as they were. -/
theorem topologicalOrder_concat (hincreasing : (nodes ++ [n]).Pairwise (· < ·))
    (hsame : ∀ m ∈ nodes, ∀ k ∈ nodes, (m, k) ∈ edges' ↔ (m, k) ∈ edges)
    (hsink : ∀ m ∈ nodes, (n, m) ∉ edges') (h : topologicalOrder nodes edges = .ok sorted)
    (h' : topologicalOrder (nodes ++ [n]) edges' = .ok sorted') : sorted' = sorted ++ [n] := by
  obtain ⟨hbelow, -, hgreatest⟩ := List.pairwise_append.1 hincreasing
  have hlt : ∀ m ∈ nodes, m < n := fun m hm => hgreatest m hm n List.mem_cons_self
  obtain ⟨hext, hgreedy⟩ := greedy_of_topologicalOrder_ok (hbelow.imp fun hmk => hmk.ne) h
  obtain ⟨hext', hgreedy'⟩ := greedy_of_topologicalOrder_ok (hincreasing.imp fun hmk => hmk.ne) h'
  have hmem : ∀ m, m ∈ sorted ↔ m ∈ nodes := fun m => hext.perm.mem_iff
  have hself : (n, n) ∉ edges' := by
    intro hedge
    have hn : n ∈ nodes ++ [n] := List.mem_append_right _ List.mem_cons_self
    exact lt_irrefl _ (hext'.forward n hn n hn hedge)
  have hlast := mayFollow_of_all_placed hlt hmem hself
  have hconcat : Greedy (nodes ++ [n]) edges' (sorted ++ [n]) := by
    refine (hgreedy.of_concat_sink hlt hsame hsink).concat hlast ?_
    intro m hm
    rcases List.mem_append.1 hm.mem with hmem' | hmem'
    · exact absurd ((hmem m).2 hmem') hm.fresh
    · exact (List.mem_singleton.1 hmem').ge
  -- neither list can be continued, since both have all nodes
  refine hgreedy'.unique hconcat (fun m hm => ?_) (fun m hm => ?_)
  · exact hm.fresh (hext'.perm.mem_iff.2 hm.mem)
  · apply hm.fresh
    rw [List.mem_append, hmem m]
    exact List.mem_append.1 hm.mem

/-! ### One phase -/

variable {β : Type} {links ordered ordered' : List (Link β)} {late : Link β}

theorem getElem?_concat {i : Nat} {a : Link β} :
    (links ++ [late])[i]? = some a ↔ links[i]? = some a ∨ (i = links.length ∧ a = late) := by
  rw [List.getElem?_append, List.getElem?_singleton]
  split
  · rename_i hlt
    simp [hlt.ne]
  · rename_i hge
    have hposition : i - links.length = 0 ↔ i = links.length := by omega
    rw [List.getElem?_eq_none (Nat.le_of_not_lt hge)]
    simp [hposition, eq_comm]

theorem innerIndices_concat (hinner : late.isInner = true) :
    innerIndices (links ++ [late]) = innerIndices links ++ [links.length] := by
  have hsame : ∀ i ∈ List.range links.length,
      ((links ++ [late])[i]?.any Link.isInner) = links[i]?.any Link.isInner := fun i hi => by
    rw [List.getElem?_append_left (List.mem_range.1 hi)]
  rw [innerIndices, innerIndices, List.length_append, List.length_singleton, List.range_succ,
    List.filter_append, List.filter_congr hsame]
  simp [hinner]

/-- Constraints between the handlers that were there stay as they were. -/
theorem mem_precedences_concat {i j : Nat} (hi : i < links.length) (hj : j < links.length) :
    (i, j) ∈ precedences (links ++ [late]) ↔ (i, j) ∈ precedences links := by
  rw [mem_precedences, mem_precedences, List.getElem?_append_left hi,
    List.getElem?_append_left hj]

/-- Claimants of one end keep their position when a handler comes that does not claim it. -/
theorem claimant_concat {claims : Link β → Bool} {found found' : Option Nat}
    (hlate : claims late = false)
    (hiff : ∀ i a, links[i]? = some a → (claims a = true ↔ found = some i))
    (hexists : ∀ i, found = some i → ∃ a, links[i]? = some a ∧ claims a = true)
    (hiff' : ∀ i a, (links ++ [late])[i]? = some a → (claims a = true ↔ found' = some i))
    (hexists' : ∀ i, found' = some i → ∃ a, (links ++ [late])[i]? = some a ∧ claims a = true) :
    found' = found := by
  apply Option.ext
  intro i
  constructor
  · intro hi
    obtain ⟨a, ha, hclaim⟩ := hexists' i hi
    rcases getElem?_concat.1 ha with ha | ⟨-, rfl⟩
    · exact (hiff i a ha).1 hclaim
    · rw [hlate] at hclaim
      cases hclaim
  · intro hi
    obtain ⟨a, ha, hclaim⟩ := hexists i hi
    exact (hiff' i a (getElem?_concat.2 (Or.inl ha))).1 hclaim

theorem Ends.concat_eq {first last first' last' : Option Nat} (h : Ends links first last)
    (h' : Ends (links ++ [late]) first' last') (hinner : late.isInner = true) :
    first' = first ∧ last' = last := by
  rw [Link.isInner, Bool.and_eq_true, Bool.not_eq_true', Bool.not_eq_true'] at hinner
  exact ⟨claimant_concat hinner.1 h.first_iff h.exists_first h'.first_iff h'.exists_first,
    claimant_concat hinner.2 h.last_iff h.exists_last h'.last_iff h'.exists_last⟩

theorem lt_of_mem_innerIndices {i : Nat} (h : i ∈ innerIndices links) : i < links.length := by
  obtain ⟨a, ha, -⟩ := mem_innerIndices.1 h
  exact (List.getElem?_eq_some_iff.1 ha).1

/-- The inner handlers are sorted as they were, and the late one comes behind them. -/
theorem sorted_concat {inner inner' : List Nat} (hinner : late.isInner = true)
    (hlate : ∀ a ∈ links, late.precedes a = false)
    (h : topologicalOrder (innerIndices links) (precedences links) = .ok inner)
    (h' : topologicalOrder (innerIndices (links ++ [late])) (precedences (links ++ [late])) =
      .ok inner') : inner' = inner ++ [links.length] := by
  have hincreasing := pairwise_innerIndices (links ++ [late])
  rw [innerIndices_concat hinner] at h' hincreasing
  refine topologicalOrder_concat hincreasing ?_ ?_ h h'
  · intro i hi j hj
    exact mem_precedences_concat (lt_of_mem_innerIndices hi) (lt_of_mem_innerIndices hj)
  · intro i hi hedge
    obtain ⟨a, b, ha, hb, hab⟩ := mem_precedences.1 hedge
    rw [List.getElem?_append_right (Nat.le_refl _), Nat.sub_self] at ha
    rw [List.getElem?_append_left (lt_of_mem_innerIndices hi)] at hb
    cases ha
    rw [hlate b (List.mem_of_getElem? hb)] at hab
    cases hab

/-- The second list is the first with a handler before the claimant of the last place, or at the
    end if no handler claims it. -/
def InsertedLast (late : Link β) (ordered ordered' : List (Link β)) : Prop :=
  ∃ front back, ordered = front ++ back ∧ ordered' = front ++ late :: back ∧
    (∀ a ∈ front, a.placement.last = false) ∧
    (back = [] ∨ ∃ claimant, back = [claimant] ∧ claimant.placement.last = true)

/-- Who is not last among handlers in order does not claim the last place. -/
theorem Ends.last_eq_false {first last : Option Nat} {inner : List Nat} (h : Ends links first last)
    (hapart : ¬ (first = last ∧ first ≠ none)) (hinner : ∀ i ∈ inner, i ∈ innerIndices links)
    {a : Link β} (ha : a ∈ (first.toList ++ inner).filterMap fun i => links[i]?) :
    a.placement.last = false := by
  obtain ⟨i, hi, hget⟩ := List.mem_filterMap.1 ha
  rw [← Bool.not_eq_true]
  intro hclaim
  have hposition := (h.last_iff i a hget).1 hclaim
  rcases List.mem_append.1 hi with hi | hi
  · -- one position cannot be that of both ends
    have hfound := Option.mem_toList.1 hi
    exact hapart ⟨hfound.trans hposition.symm, by rw [hfound]; simp⟩
  · obtain ⟨b, hb, hbinner⟩ := mem_innerIndices.1 (hinner i hi)
    rw [hget, Option.some.injEq] at hb
    rw [← hb, Link.isInner, hclaim, Bool.not_true, Bool.and_false] at hbinner
    cases hbinner

/-- Positions with the one of the late handler before the last claimant's. -/
theorem Ends.insertedLast {first last : Option Nat} {inner : List Nat} (h : Ends links first last)
    (hapart : ¬ (first = last ∧ first ≠ none)) (hinner : ∀ i ∈ inner, i ∈ innerIndices links) :
    InsertedLast late ((first.toList ++ inner ++ last.toList).filterMap fun i => links[i]?)
      ((first.toList ++ (inner ++ [links.length]) ++ last.toList).filterMap
        fun i => (links ++ [late])[i]?) := by
  have hkeep : ∀ positions : List Nat, (∀ i ∈ positions, i < links.length) →
      (positions.filterMap fun i => (links ++ [late])[i]?) =
        positions.filterMap fun i => links[i]? := fun positions hpositions =>
    List.filterMap_congr fun i hi => List.getElem?_append_left (hpositions i hi)
  have hnew : ([links.length].filterMap fun i => (links ++ [late])[i]?) = [late] := by simp
  have hfront : ∀ i ∈ first.toList ++ inner, i < links.length := by
    intro i hi
    rcases List.mem_append.1 hi with hi | hi
    · obtain ⟨a, ha, -⟩ := h.exists_first i (Option.mem_toList.1 hi)
      exact (List.getElem?_eq_some_iff.1 ha).1
    · exact lt_of_mem_innerIndices (hinner i hi)
  have hback : ∀ i ∈ last.toList, i < links.length := by
    intro i hi
    obtain ⟨a, ha, -⟩ := h.exists_last i (Option.mem_toList.1 hi)
    exact (List.getElem?_eq_some_iff.1 ha).1
  refine ⟨(first.toList ++ inner).filterMap fun i => links[i]?,
    last.toList.filterMap fun i => links[i]?, List.filterMap_append, ?_,
    fun a ha => h.last_eq_false hapart hinner ha, ?_⟩
  · rw [← List.append_assoc, List.filterMap_append, List.filterMap_append, hkeep _ hfront,
      hkeep _ hback, hnew, List.append_assoc, List.singleton_append]
  · cases last with
    | none => exact Or.inl rfl
    | some i =>
      obtain ⟨a, ha, hclaim⟩ := h.exists_last i rfl
      exact Or.inr ⟨a, by simp [ha], hclaim⟩

/-- **One phase.**  A late handler that need not precede any other comes last, but for the claimant
    of that place, and the others stand as they stood. -/
theorem insertedLast_of_orderPhase {phase : String} (hinner : late.isInner = true)
    (hlate : ∀ a ∈ links, late.precedes a = false) (h : orderPhase phase links = .ok ordered)
    (h' : orderPhase phase (links ++ [late]) = .ok ordered') :
    InsertedLast late ordered ordered' := by
  rcases orderPhase_ok_cases h' with ⟨⟨a, ha, hfirst, -⟩, -⟩ |
    ⟨first', last', inner', hends', hapart', -, hsorted', rfl⟩
  · -- the late handler would be the one that has the phase for itself
    have hmem : late ∈ [a] := ha ▸ List.mem_append_right _ List.mem_cons_self
    rw [← List.mem_singleton.1 hmem] at hfirst
    simp [Link.isInner, hfirst] at hinner
  rcases orderPhase_ok_cases h with ⟨⟨a, rfl, hfirst, hlast⟩, -⟩ |
    ⟨first, last, inner, hends, hapart, -, hsorted, rfl⟩
  · exact absurd (hends'.both_of_claims (by simp) hfirst hlast) hapart'
  obtain ⟨rfl, rfl⟩ := hends.concat_eq hends' hinner
  have hn : (innerIndices links).Nodup := (pairwise_innerIndices links).imp fun hij => hij.ne
  rw [sorted_concat hinner hlate hsorted hsorted']
  exact hends.insertedLast hapart fun i hi => (topologicalOrder_ok hn hsorted).1.mem_iff.1 hi

/-! ### The whole chain -/

/-- A handler that claims neither end of its phase, and that no handler of the phase in a chain has
    to wait for: it names none of them in its own `before`, and none of them names it in its
    `after`. -/
structure Unrequired (late : Link β) (chain : Chain β) : Prop where
  no_first : late.placement.first = false
  no_last : late.placement.last = false
  before : ∀ a ∈ chain.links, a.phase = late.phase → a.name ∉ late.placement.before
  after : ∀ a ∈ chain.links, a.phase = late.phase → late.name ∉ a.placement.after

instance (late : Link β) (chain : Chain β) : Decidable (Unrequired late chain) :=
  decidable_of_iff
    ((late.placement.first = false ∧ late.placement.last = false) ∧
      ∀ a ∈ chain.links, a.phase = late.phase →
        a.name ∉ late.placement.before ∧ late.name ∉ a.placement.after)
    ⟨fun h => ⟨h.1.1, h.1.2, fun a ha hphase => (h.2 a ha hphase).1,
        fun a ha hphase => (h.2 a ha hphase).2⟩,
      fun h => ⟨⟨h.no_first, h.no_last⟩,
        fun a ha hphase => ⟨h.before a ha hphase, h.after a ha hphase⟩⟩⟩

/-- The second chain is the first with a handler at the end of its phase. -/
structure Chain.GainsLate (chain : Chain β) (late : Link β) (other : Chain β) : Prop where
  flow_eq : other.flow = chain.flow
  phases : ∃ earlier phase later inserted, chain.phases = earlier ++ phase :: later ∧
    other.phases = earlier ++ { phase with links := inserted } :: later ∧
    phase.name = late.phase ∧ (∀ p ∈ earlier, p.name ≠ late.phase) ∧
    InsertedLast late phase.links inserted

/-- The other handlers keep their relative order. -/
theorem Chain.GainsLate.links_eq {chain other : Chain β} (h : chain.GainsLate late other) :
    ∃ front back, chain.links = front ++ back ∧ other.links = front ++ late :: back := by
  obtain ⟨earlier, phase, later, -, hold, hnew, -, -, front, back, hfront, rfl, -⟩ := h.phases
  refine ⟨earlier.flatMap Phase.links ++ front, back ++ later.flatMap Phase.links, ?_, ?_⟩
  · rw [Chain.links, hold, List.flatMap_append, List.flatMap_cons, hfront]
    simp
  · rw [Chain.links, hnew, List.flatMap_append, List.flatMap_cons]
    simp

variable {seen declared : List String} {phases phases' : List (Phase β)}

/-- A late handler comes last where it belongs, and nowhere else. -/
theorem bucket_concat (links : List (Link β)) (late : Link β) (seen : List String) (name : String) :
    bucket (links ++ [late]) seen name =
      if late.phase = name ∧ name ∉ seen then bucket links seen name ++ [late]
      else bucket links seen name := by
  rw [bucket, bucket, inPhase_append]
  by_cases hseen : name ∈ seen
  · simp [hseen]
  · by_cases hphase : late.phase = name
    · simp [hseen, hphase, inPhase]
    · simp [hseen, hphase, inPhase]

/-- What goes to a phase that was filled changes no other. -/
theorem fillPhases_concat_of_mem (hseen : late.phase ∈ seen) :
    fillPhases (links ++ [late]) seen declared = fillPhases links seen declared := by
  induction declared generalizing seen with
  | nil => rfl
  | cons name rest ih =>
    have hsame := bucket_concat links late seen name
    rw [if_neg (by rintro ⟨rfl, hnot⟩; exact hnot hseen)] at hsame
    simp only [bucket, inPhase] at hsame
    rw [fillPhases, fillPhases, hsame, ih (List.mem_cons_of_mem name hseen)]

theorem fillPhases_gainsLate (hinner : late.isInner = true)
    (hlate : ∀ a ∈ links, a.phase = late.phase → late.precedes a = false)
    (hdeclared : late.phase ∈ declared) (hseen : late.phase ∉ seen)
    (h : fillPhases links seen declared = .ok phases)
    (h' : fillPhases (links ++ [late]) seen declared = .ok phases') :
    ∃ earlier phase later inserted, phases = earlier ++ phase :: later ∧
      phases' = earlier ++ { phase with links := inserted } :: later ∧
      phase.name = late.phase ∧ (∀ p ∈ earlier, p.name ≠ late.phase) ∧
      InsertedLast late phase.links inserted := by
  induction declared generalizing seen phases phases' with
  | nil => cases hdeclared
  | cons name rest ih =>
    obtain ⟨ordered, tail, hordered, htail, rfl⟩ := fillPhases_cons_ok h
    obtain ⟨ordered', tail', hordered', htail', rfl⟩ := fillPhases_cons_ok h'
    rw [bucket_concat] at hordered'
    by_cases hphase : late.phase = name
    · subst hphase
      rw [if_pos ⟨rfl, hseen⟩] at hordered'
      rw [fillPhases_concat_of_mem List.mem_cons_self, htail, Except.ok.injEq] at htail'
      subst htail'
      refine ⟨[], ⟨late.phase, ordered⟩, tail, ordered', rfl, rfl, rfl, by simp, ?_⟩
      refine insertedLast_of_orderPhase hinner (fun a ha => ?_) hordered hordered'
      obtain ⟨hmem, hphase, -⟩ := mem_bucket.1 ha
      exact hlate a hmem hphase
    · rw [if_neg fun hand => hphase hand.1, hordered, Except.ok.injEq] at hordered'
      subst hordered'
      have hseen' : late.phase ∉ name :: seen := by
        rw [List.mem_cons, not_or]
        exact ⟨hphase, hseen⟩
      obtain ⟨earlier, phase, later, inserted, rfl, rfl, hname, hearlier, hinserted⟩ :=
        ih ((List.mem_cons.1 hdeclared).resolve_left hphase) hseen' htail htail'
      refine ⟨⟨name, ordered⟩ :: earlier, phase, later, inserted, rfl, rfl, hname, ?_, hinserted⟩
      intro p hp
      rcases List.mem_cons.1 hp with rfl | hp
      · exact Ne.symm hphase
      · exact hearlier p hp

/-- **A late handler moves no other**: what is resolved with it is what was resolved without it, and
    the handler at the end of its phase. -/
theorem gainsLate_of_resolve {order : PhaseOrder} {flow : Flow} {chain other : Chain β}
    (h : resolve order flow links = .ok chain)
    (h' : resolve order flow (links ++ [late]) = .ok other) (hlate : Unrequired late chain) :
    chain.GainsLate late other := by
  have hperm := perm_of_resolve h
  obtain ⟨-, phases, hphases, rfl⟩ := resolve_ok h
  obtain ⟨hacc, phases', hphases', rfl⟩ := resolve_ok h'
  have hinner : late.isInner = true := by
    simp [Link.isInner, hlate.no_first, hlate.no_last]
  refine ⟨rfl, fillPhases_gainsLate hinner ?_ (hacc.declared late (by simp)) (by simp)
    hphases hphases'⟩
  intro a ha hphase
  rw [← Bool.not_eq_true, Link.precedes_iff, not_or]
  have hmem := hperm.mem_iff.2 ha
  exact ⟨hlate.before a hmem hphase, hlate.after a hmem hphase⟩

end ExchangePipeline
