/-
  ExchangePipeline/Proofs/Chain/LeastOrder.lean
  =============================================
  **The order of a phase is the least one there is.**

  At each place the sorting puts the least node that could stand there.  This is
  `Greedy`, kept by one step (`Greedy.step`) and so by the whole loop
  (`greedy_final`).  It speaks of nodes and edges only as sets, and there is one
  greedy list that cannot be continued (`Greedy.unique`): the order does not
  depend on how nodes and edges are listed.  Against another linear extension it
  is compared place by place, from the front: after what both have in common, the
  greedy list goes on with the lesser node (`Greedy.le_of_linearExtension`).

  For a phase, the order of registration is least among all orders, so it stays
  where it meets all claims and constraints (`InPlace.orderPhase_eq`).  A phase that
  was put in order is such a case, and so a chain is resolved to itself
  (`resolve_links`).
-/
import ExchangePipeline.Proofs.Chain.Resolution

namespace ExchangePipeline

variable {nodes : List Nat} {edges : List (Nat × Nat)}

/-! ### Linear extensions -/

/-- All nodes, each once, with the edges between them running forward. -/
structure LinearExtension (nodes : List Nat) (edges : List (Nat × Nat)) (l : List Nat) : Prop where
  perm : l.Perm nodes
  forward : ∀ m ∈ nodes, ∀ n ∈ nodes, (m, n) ∈ edges → l.idxOf m < l.idxOf n

/-- A node that may stand next: it has not come yet, and its predecessors have. -/
structure MayFollow (nodes : List Nat) (edges : List (Nat × Nat)) (earlier : List Nat) (n : Nat) :
    Prop where
  mem : n ∈ nodes
  fresh : n ∉ earlier
  preceded : ∀ m ∈ nodes, (m, n) ∈ edges → m ∈ earlier

/-- At each place stands the least node that may stand there. -/
def Greedy (nodes : List Nat) (edges : List (Nat × Nat)) (l : List Nat) : Prop :=
  ∀ earlier n later, l = earlier ++ n :: later →
    MayFollow nodes edges earlier n ∧ ∀ m, MayFollow nodes edges earlier m → n ≤ m

theorem mayFollow_congr {nodes' : List Nat} {edges' : List (Nat × Nat)}
    (hn : ∀ n, n ∈ nodes' ↔ n ∈ nodes) (he : ∀ edge, edge ∈ edges' ↔ edge ∈ edges)
    {earlier : List Nat} {n : Nat} :
    MayFollow nodes' edges' earlier n ↔ MayFollow nodes edges earlier n := by
  constructor
  · rintro ⟨hmem, hfresh, hpre⟩
    exact ⟨(hn n).1 hmem, hfresh, fun m hm hedge => hpre m ((hn m).2 hm) ((he _).2 hedge)⟩
  · rintro ⟨hmem, hfresh, hpre⟩
    exact ⟨(hn n).2 hmem, hfresh, fun m hm hedge => hpre m ((hn m).1 hm) ((he _).1 hedge)⟩

/-- Comes no later than another list when both are compared place by place, from the front. -/
def LexLe (l other : List Nat) : Prop :=
  l = other ∨ List.Lex (· < ·) l other

/-- In a linear extension every node may follow on those before it. -/
theorem LinearExtension.mayFollow {l earlier later : List Nat} {n : Nat} (hn : nodes.Nodup)
    (h : LinearExtension nodes edges l) (hl : l = earlier ++ n :: later) :
    MayFollow nodes edges earlier n := by
  have hmem : n ∈ nodes := h.perm.mem_iff.1 (by simp [hl])
  have hfresh : n ∉ earlier := by
    intro hmem
    have hnodup := h.perm.nodup_iff.2 hn
    rw [hl, List.nodup_append] at hnodup
    exact hnodup.2.2 n hmem n List.mem_cons_self rfl
  refine ⟨hmem, hfresh, ?_⟩
  intro m hm hedge
  have hlt := h.forward m hm n hmem hedge
  by_contra hnot
  rw [hl, List.idxOf_append_of_notMem hnot, List.idxOf_append_of_notMem hfresh,
    List.idxOf_cons_self] at hlt
  omega

/-! ### The greedy order -/

/-- One more node, the least that may follow. -/
theorem Greedy.concat {l : List Nat} {n : Nat} (h : Greedy nodes edges l)
    (hn : MayFollow nodes edges l n) (hleast : ∀ m, MayFollow nodes edges l m → n ≤ m) :
    Greedy nodes edges (l ++ [n]) := by
  intro earlier k later hl
  rcases later.eq_nil_or_concat with rfl | ⟨later, k', rfl⟩
  · obtain ⟨rfl, hk⟩ := List.append_inj' hl rfl
    cases hk
    exact ⟨hn, hleast⟩
  · rw [List.concat_eq_append, ← List.cons_append, ← List.append_assoc] at hl
    exact h earlier k later (List.append_inj' hl rfl).1

/-- **There is one greedy list that cannot be continued.** -/
theorem Greedy.unique {l l' : List Nat} (h : Greedy nodes edges l) (h' : Greedy nodes edges l')
    (hend : ∀ n, ¬ MayFollow nodes edges l n) (hend' : ∀ n, ¬ MayFollow nodes edges l' n) :
    l = l' := by
  have hrest : ∀ rest earlier rest', l = earlier ++ rest → l' = earlier ++ rest' →
      rest = rest' := by
    intro rest
    induction rest with
    | nil =>
      intro earlier rest' hl hl'
      cases rest' with
      | nil => rfl
      | cons n rest' =>
        rw [List.append_nil] at hl
        exact absurd (hl ▸ (h' earlier n rest' hl').1) (hend n)
    | cons n rest ih =>
      intro earlier rest' hl hl'
      obtain ⟨hn, hnleast⟩ := h earlier n rest hl
      cases rest' with
      | nil =>
        rw [List.append_nil] at hl'
        exact absurd (hl' ▸ hn) (hend' n)
      | cons m rest' =>
        -- each of the two is the least that may stand here
        obtain ⟨hm, hmleast⟩ := h' earlier m rest' hl'
        obtain rfl := Nat.le_antisymm (hnleast m hm) (hmleast n hn)
        rw [ih (earlier ++ [n]) rest' (by simp [hl]) (by simp [hl'])]
  exact hrest l [] l' rfl rfl

/-- **The greedy order is the least linear extension**, compared place by place. -/
theorem Greedy.le_of_linearExtension {l other : List Nat} (hn : nodes.Nodup)
    (h : Greedy nodes edges l) (hother : LinearExtension nodes edges other) : LexLe l other := by
  have hrest : ∀ rest earlier rest', l = earlier ++ rest → other = earlier ++ rest' →
      LexLe rest rest' := by
    intro rest
    induction rest with
    | nil =>
      intro _ rest' _ _
      cases rest' with
      | nil => exact Or.inl rfl
      | cons m rest' => exact Or.inr .nil
    | cons n rest ih =>
      intro earlier rest' hl hother'
      obtain ⟨hmay, hleast⟩ := h earlier n rest hl
      cases rest' with
      | nil =>
        -- the other list has all nodes, so there is none left to stand here
        rw [List.append_nil] at hother'
        exact absurd (hother.perm.mem_iff.2 hmay.mem) (hother' ▸ hmay.fresh)
      | cons m rest' =>
        rcases Nat.lt_or_eq_of_le (hleast m (hother.mayFollow hn hother')) with hlt | rfl
        · exact Or.inr (.rel hlt)
        · rcases ih (earlier ++ [n]) rest' (by simp [hl]) (by simp [hother']) with rfl | hlex
          · exact Or.inl rfl
          · exact Or.inr (.cons hlex)
  exact hrest l [] other rfl rfl

/-! ### What the loop comes to -/

namespace Sorting

/-- The ready nodes are those that may follow on what is placed. -/
theorem Sound.mem_ready_iff {s : Sorting} (h : Sound nodes (edgesWithin nodes edges) s) {n : Nat} :
    n ∈ s.ready ↔ MayFollow nodes edges s.placed n := by
  rw [h.mem_ready, waiting_eq_zero_iff]
  constructor
  · rintro ⟨hmem, hfresh, hpre⟩
    exact ⟨hmem, hfresh, fun m hm hedge => hpre m (mem_edgesWithin.2 ⟨hedge, hm, hmem⟩)⟩
  · rintro ⟨hmem, hfresh, hpre⟩
    refine ⟨hmem, hfresh, fun m hedge => ?_⟩
    obtain ⟨hedge, hm, -⟩ := mem_edgesWithin.1 hedge
    exact hpre m hm hedge

/-- **One step** puts the least ready node, and keeps the order greedy. -/
theorem greedy_step {s t : Sorting} (h : Sound nodes (edgesWithin nodes edges) s)
    (hgreedy : Greedy nodes edges s.placed) (hs : s.step? (edgesWithin nodes edges) = some t) :
    Sound nodes (edgesWithin nodes edges) t ∧ Greedy nodes edges t.placed := by
  have hin : ∀ edge ∈ edgesWithin nodes edges, edge.2 ∈ nodes := fun _ hedge =>
    (mem_edgesWithin.1 hedge).2.2
  obtain ⟨ht, n, rest, hready, hplaced⟩ := h.step hin hs
  refine ⟨ht, hplaced ▸ hgreedy.concat (h.mem_ready_iff.1 (by simp [hready])) ?_⟩
  intro m hm
  have hmem := h.mem_ready_iff.2 hm
  rw [hready] at hmem
  rcases List.mem_cons.1 hmem with rfl | hmem
  · exact Nat.le_refl m
  · exact ((List.pairwise_cons.1 (hready ▸ h.increasing)).1 m hmem).le

/-- **The loop** keeps the order greedy. -/
theorem greedy_run {s : Sorting} (h : Sound nodes (edgesWithin nodes edges) s)
    (hgreedy : Greedy nodes edges s.placed) (fuel : Nat) :
    Greedy nodes edges (run (edgesWithin nodes edges) fuel s).placed := by
  induction fuel generalizing s with
  | zero => exact hgreedy
  | succ fuel ih =>
    rw [run]
    cases hs : s.step? (edgesWithin nodes edges) with
    | none => exact hgreedy
    | some t =>
      obtain ⟨ht, hgreedy⟩ := greedy_step h hgreedy hs
      exact ih ht hgreedy

/-- What is placed in the end is greedy, and nothing may follow on it. -/
theorem greedy_final (hn : nodes.Nodup) (edges : List (Nat × Nat)) :
    Greedy nodes edges (final nodes edges).placed ∧
      ∀ n, ¬ MayFollow nodes edges (final nodes edges).placed n := by
  obtain ⟨hsound, hready⟩ := sound_final hn edges
  constructor
  · exact greedy_run (sound_start hn) (by simp [Greedy, start]) nodes.length
  · intro n hmay
    have := hsound.mem_ready_iff.2 hmay
    simp [hready] at this

/-- **What is placed does not depend on how nodes and edges are listed.** -/
theorem placed_final_perm {nodes' : List Nat} {edges' : List (Nat × Nat)} (hn : nodes.Nodup)
    (hnodes : nodes'.Perm nodes) (hedges : edges'.Perm edges) :
    (final nodes' edges').placed = (final nodes edges).placed := by
  obtain ⟨hgreedy, hend⟩ := greedy_final hn edges
  obtain ⟨hgreedy', hend'⟩ := greedy_final (hnodes.nodup_iff.2 hn) edges'
  have hmay : ∀ {earlier : List Nat} {n : Nat},
      MayFollow nodes' edges' earlier n ↔ MayFollow nodes edges earlier n :=
    mayFollow_congr (fun _ => hnodes.mem_iff) (fun _ => hedges.mem_iff)
  simp only [Greedy, hmay] at hgreedy' hend'
  exact Greedy.unique hgreedy' hgreedy hend' hend

end Sorting

/-- An order that comes out is a linear extension, and greedy. -/
theorem greedy_of_topologicalOrder_ok {sorted : List Nat} (hn : nodes.Nodup)
    (h : topologicalOrder nodes edges = .ok sorted) :
    LinearExtension nodes edges sorted ∧ Greedy nodes edges sorted := by
  obtain ⟨hperm, hforward⟩ := topologicalOrder_ok hn h
  refine ⟨⟨hperm, hforward⟩, ?_⟩
  rw [topologicalOrder_eq] at h
  split at h
  · cases h
    exact (Sorting.greedy_final hn edges).1
  · cases h

theorem topologicalOrder_ok_perm {nodes' sorted : List Nat} {edges' : List (Nat × Nat)}
    (hn : nodes.Nodup) (hnodes : nodes'.Perm nodes) (hedges : edges'.Perm edges)
    (h : topologicalOrder nodes edges = .ok sorted) :
    topologicalOrder nodes' edges' = .ok sorted := by
  rw [topologicalOrder_eq] at h ⊢
  rw [Sorting.placed_final_perm hn hnodes hedges, hnodes.length_eq]
  split at h
  · rename_i hlen
    rw [if_pos hlen]
    exact h
  · cases h

/-- Increasing nodes stay as they are if all edges between them lead to greater ones. -/
theorem topologicalOrder_of_increasing (hincreasing : nodes.Pairwise (· < ·))
    (hedges : ∀ m ∈ nodes, ∀ n ∈ nodes, (m, n) ∈ edges → m < n) :
    topologicalOrder nodes edges = .ok nodes := by
  have hgreedy : Greedy nodes edges nodes := by
    intro earlier n later hnodes
    rw [hnodes, List.pairwise_append, List.pairwise_cons] at hincreasing
    obtain ⟨-, ⟨hlater, -⟩, hearlier⟩ := hincreasing
    -- what has not come before `n` is not less than `n`
    have hrest : ∀ m ∈ nodes, m ∉ earlier → n ≤ m := by
      intro m hm hnot
      rw [hnodes, List.mem_append, List.mem_cons] at hm
      rcases hm.resolve_left hnot with rfl | hm
      · exact Nat.le_refl m
      · exact (hlater m hm).le
    have hmem : n ∈ nodes := by simp [hnodes]
    refine ⟨⟨hmem, ?_, ?_⟩, fun m hm => hrest m hm.mem hm.fresh⟩
    · intro hn
      exact lt_irrefl n (hearlier n hn n List.mem_cons_self)
    · intro m hm hedge
      by_contra hnot
      exact absurd (hedges m hm n hmem hedge) (Nat.not_lt.2 (hrest m hm hnot))
  obtain ⟨hplaced, hend⟩ := Sorting.greedy_final (hincreasing.imp fun h => h.ne) edges
  rw [topologicalOrder_eq,
    hplaced.unique hgreedy hend (fun n hn => hn.fresh hn.mem), if_pos rfl]

/-! ### The handlers between the ends -/

variable {β : Type} {links ordered : List (Link β)} {first last : Option Nat}

/-- The positions of the handlers that claim neither end, in the order of registration. -/
def innerIndices (links : List (Link β)) : List Nat :=
  (List.range links.length).filter fun i => links[i]?.any Link.isInner

theorem mem_innerIndices {i : Nat} :
    i ∈ innerIndices links ↔ ∃ a, links[i]? = some a ∧ a.isInner = true := by
  simp only [innerIndices, List.mem_filter, List.mem_range, Option.any_eq_true]
  constructor
  · exact fun h => h.2
  · rintro ⟨a, ha, hinner⟩
    exact ⟨(List.getElem?_eq_some_iff.1 ha).1, a, ha, hinner⟩

theorem pairwise_innerIndices (links : List (Link β)) :
    (innerIndices links).Pairwise (· < ·) :=
  List.pairwise_lt_range.filter _

theorem Ends.innerPositions_eq (h : Ends links first last) :
    innerPositions links first last = innerIndices links := by
  apply List.filter_congr
  intro i hi
  have hget := List.getElem?_eq_getElem (List.mem_range.1 hi)
  have hiff := h.mem_innerPositions_iff hget
  rw [mem_innerPositions] at hiff
  rw [← Bool.coe_iff_coe]
  simpa [hget, List.mem_range.1 hi] using hiff

/-- Of the handlers at the positions of a phase in order, the inner ones are those between the
    claimants' positions. -/
theorem Ends.filter_isInner (h : Ends links first last) {inner : List Nat}
    (hinner : ∀ i ∈ inner, i ∈ innerIndices links) :
    ((first.toList ++ inner ++ last.toList).filterMap fun i => links[i]?).filter Link.isInner =
      inner.filterMap fun i => links[i]? := by
  have hends : ∀ found : Option Nat, (∀ i, found = some i → i ∉ innerIndices links) →
      (found.toList.filterMap fun i => links[i]?).filter Link.isInner = [] := by
    intro found hfound
    rw [List.filter_eq_nil_iff]
    intro a ha hainner
    obtain ⟨i, hi, hget⟩ := List.mem_filterMap.1 ha
    exact hfound i (Option.mem_toList.1 hi) (mem_innerIndices.2 ⟨a, hget, hainner⟩)
  have hfirst := hends first fun i hi hmem => by
    rw [← h.innerPositions_eq, mem_innerPositions] at hmem
    exact hmem.2.1 hi.symm
  have hlast := hends last fun i hi hmem => by
    rw [← h.innerPositions_eq, mem_innerPositions] at hmem
    exact hmem.2.2 hi.symm
  rw [List.filterMap_append, List.filterMap_append, List.filter_append, List.filter_append, hfirst,
    hlast, List.nil_append, List.append_nil, List.filter_eq_self]
  intro a ha
  obtain ⟨i, hi, hget⟩ := List.mem_filterMap.1 ha
  obtain ⟨b, hb, hbinner⟩ := mem_innerIndices.1 (hinner i hi)
  rw [hget, Option.some.injEq] at hb
  exact hb ▸ hbinner

/-- What comes out of the ordering of a phase: one handler at most that claims both ends, or the
    claimants with the sorted inner ones in between. -/
theorem orderPhase_ok_cases {phase : String} (h : orderPhase phase links = .ok ordered) :
    (Lone links ∧ ordered = links) ∨
      ∃ first last inner, Ends links first last ∧ ¬ (first = last ∧ first ≠ none) ∧
        outerConflict? links first last = none ∧
        topologicalOrder (innerIndices links) (precedences links) = .ok inner ∧
        ordered = (first.toList ++ inner ++ last.toList).filterMap fun i => links[i]? := by
  have hcourse := course_orderPositions links
  rw [orderPhase] at h
  cases hpositions : orderPositions links with
  | error conflict =>
    rw [hpositions] at h
    cases h
  | ok positions =>
    rw [hpositions] at h hcourse
    cases h
    cases hcourse with
    | alone ends both alone =>
      obtain ⟨a, ha, hafirst, halast⟩ := ends.exists_both both
      obtain ⟨b, rfl⟩ := List.length_eq_one_iff.1
        (Nat.le_antisymm alone (List.length_pos_of_mem ha))
      obtain rfl := List.mem_singleton.1 ha
      exact Or.inl ⟨⟨a, rfl, hafirst, halast⟩, filterMap_range [a]⟩
    | sorted ends apart free succeeds =>
      rw [ends.innerPositions_eq] at succeeds
      exact Or.inr ⟨_, _, _, ends, apart, free, succeeds, rfl⟩

/-! ### Phases that are in order already -/

/-- Claims and constraints that the order of registration meets. -/
structure InPlace (links : List (Link β)) : Prop where
  first : ∀ (i : Nat) (a : Link β), links[i]? = some a → a.placement.first = true → i = 0
  last : ∀ (i : Nat) (a : Link β), links[i]? = some a → a.placement.last = true →
    i + 1 = links.length
  respects : ∀ (i j : Nat) (a b : Link β), links[i]? = some a → links[j]? = some b →
    a.precedes b = true → i < j

theorem InPlace.lt_of_mem_precedences (h : InPlace links) {i j : Nat}
    (hedge : (i, j) ∈ precedences links) : i < j := by
  obtain ⟨a, b, ha, hb, hab⟩ := mem_precedences.1 hedge
  exact h.respects i j a b ha hb hab

theorem InPlace.countP_first_le (h : InPlace links) :
    links.countP (fun link => link.placement.first) ≤ 1 := by
  cases links with
  | nil => simp
  | cons a rest =>
    have hrest : rest.countP (fun link => link.placement.first) = 0 := by
      rw [List.countP_eq_zero]
      intro b hb hclaim
      obtain ⟨i, hi⟩ := List.mem_iff_getElem?.1 hb
      exact absurd (h.first (i + 1) b hi hclaim) (Nat.succ_ne_zero i)
    rw [List.countP_cons, hrest]
    split <;> omega

theorem InPlace.countP_last_le (h : InPlace links) :
    links.countP (fun link => link.placement.last) ≤ 1 := by
  rcases links.eq_nil_or_concat with rfl | ⟨front, a, rfl⟩
  · simp
  · rw [List.concat_eq_append] at h ⊢
    have hfront : front.countP (fun link => link.placement.last) = 0 := by
      rw [List.countP_eq_zero]
      intro b hb hclaim
      obtain ⟨i, hi⟩ := List.mem_iff_getElem?.1 hb
      have hlt := (List.getElem?_eq_some_iff.1 hi).1
      have hlast := h.last i b (by rw [List.getElem?_append_left hlt, hi]) hclaim
      rw [List.length_append, List.length_singleton] at hlast
      omega
    rw [List.countP_append, hfront, List.countP_singleton]
    split <;> omega

/-- Where the order of registration meets all claims, the claimants' positions around the inner
    ones are all positions in increasing order. -/
theorem InPlace.positions_eq (h : InPlace links) (hends : Ends links first last)
    (hapart : ¬ (first = last ∧ first ≠ none)) :
    first.toList ++ innerIndices links ++ last.toList = List.range links.length := by
  have hlt : ∀ {i : Nat} {a : Link β}, links[i]? = some a → i < links.length := fun ha =>
    (List.getElem?_eq_some_iff.1 ha).1
  have hfirst : ∀ i, first = some i → i = 0 ∧ i < links.length := fun i hi => by
    obtain ⟨a, ha, hclaim⟩ := hends.exists_first i hi
    exact ⟨h.first i a ha hclaim, hlt ha⟩
  have hlast : ∀ i, last = some i → i + 1 = links.length ∧ i < links.length := fun i hi => by
    obtain ⟨a, ha, hclaim⟩ := hends.exists_last i hi
    exact ⟨h.last i a ha hclaim, hlt ha⟩
  have hperm := perm_positions (fun i hi => (hfirst i hi).2) (fun i hi => (hlast i hi).2) hapart
  have hinner : ∀ i ∈ innerIndices links, i < links.length ∧ some i ≠ first ∧ some i ≠ last :=
    fun i hi => mem_innerPositions.1 (hends.innerPositions_eq ▸ hi)
  rw [hends.innerPositions_eq] at hperm
  refine hperm.eq_of_pairwise (fun a b _ _ hab hba => by omega) ?_
    List.pairwise_lt_range
  rw [List.pairwise_append, List.pairwise_append]
  refine ⟨⟨?_, pairwise_innerIndices links, ?_⟩, ?_, ?_⟩
  · cases first <;> simp
  · intro i hi j hj
    obtain ⟨rfl, -⟩ := hfirst i (Option.mem_toList.1 hi)
    have hne : j ≠ 0 := fun e => (hinner j hj).2.1 (by rw [e, Option.mem_toList.1 hi])
    omega
  · cases last <;> simp
  · intro i hi j hj
    obtain ⟨hj', -⟩ := hlast j (Option.mem_toList.1 hj)
    have hi' : i < links.length := by
      rcases List.mem_append.1 hi with hi | hi
      · exact (hfirst i (Option.mem_toList.1 hi)).2
      · exact (hinner i hi).1
    have hne : i ≠ j := by
      rintro rfl
      rcases List.mem_append.1 hi with hi | hi
      · exact hapart ⟨(Option.mem_toList.1 hi).trans (Option.mem_toList.1 hj).symm,
          by rw [Option.mem_toList.1 hi]; simp⟩
      · exact (hinner i hi).2.2 (Option.mem_toList.1 hj).symm
    omega

theorem InPlace.outerConflict?_eq_none (h : InPlace links) (hends : Ends links first last) :
    outerConflict? links first last = none := by
  refine outerConflict?_eq_none_iff.2 ⟨?_, ?_⟩
  · intro i hi j hedge
    obtain ⟨a, ha, hclaim⟩ := hends.exists_first i hi
    have hlt := h.lt_of_mem_precedences hedge
    have hzero := h.first i a ha hclaim
    omega
  · intro i hi j hedge
    obtain ⟨a, ha, hclaim⟩ := hends.exists_last i hi
    obtain ⟨-, b, -, hb, -⟩ := mem_precedences.1 hedge
    have hlt := h.lt_of_mem_precedences hedge
    have hlen := h.last i a ha hclaim
    have hj := (List.getElem?_eq_some_iff.1 hb).1
    omega

theorem InPlace.topologicalOrder_eq (h : InPlace links) :
    topologicalOrder (innerIndices links) (precedences links) = .ok (innerIndices links) :=
  topologicalOrder_of_increasing (pairwise_innerIndices links) fun _ _ _ _ hedge =>
    h.lt_of_mem_precedences hedge

/-- **A phase in order stays as it is.** -/
theorem InPlace.orderPhase_eq (h : InPlace links) (phase : String) :
    orderPhase phase links = .ok links := by
  have hcourse := course_orderPositions links
  have hpositions : orderPositions links = .ok (List.range links.length) := by
    generalize orderPositions links = outcome at hcourse ⊢
    cases hcourse with
    | rivalsForFirst _ _ rivals => exact absurd h.countP_first_le rivals
    | rivalsForLast _ _ rivals => exact absurd h.countP_last_le rivals
    | notAlone _ ends both others =>
      obtain ⟨a, ha, hafirst, halast⟩ := ends.exists_both both
      obtain ⟨i, hi⟩ := List.mem_iff_getElem?.1 ha
      have hzero := h.first i a hi hafirst
      have hlen := h.last i a hi halast
      omega
    | alone => rfl
    | obstructed ends _ conflicts =>
      rw [h.outerConflict?_eq_none ends] at conflicts
      cases conflicts
    | stuck ends _ _ fails =>
      rw [ends.innerPositions_eq, h.topologicalOrder_eq] at fails
      cases fails
    | sorted ends apart _ succeeds =>
      rw [ends.innerPositions_eq, h.topologicalOrder_eq] at succeeds
      cases succeeds
      rw [h.positions_eq ends apart]
  rw [orderPhase, hpositions]
  exact congrArg Except.ok (filterMap_range links)

/-- A handler that is asked for its constraints and does not stop the ordering does not name
    itself. -/
theorem Ends.not_precedes_self {inner : List Nat} (h : Ends links first last)
    (hfree : outerConflict? links first last = none)
    (hinner : topologicalOrder (innerIndices links) (precedences links) = .ok inner) {i : Nat} :
    (i, i) ∉ precedences links := by
  intro hedge
  obtain ⟨a, -, ha, -, -⟩ := mem_precedences.1 hedge
  obtain ⟨hnofirst, hnolast⟩ := ExchangePipeline.outerConflict?_eq_none_iff.1 hfree
  by_cases hainner : a.isInner = true
  · have hmem := mem_innerIndices.2 ⟨a, ha, hainner⟩
    have hn : (innerIndices links).Nodup := (pairwise_innerIndices links).imp fun h => h.ne
    exact lt_irrefl _ ((topologicalOrder_ok hn hinner).2 i hmem i hmem hedge)
  · rw [Link.isInner, Bool.and_eq_true, not_and_or, Bool.not_eq_true', Bool.not_eq_true',
      Bool.not_eq_false, Bool.not_eq_false] at hainner
    rcases hainner with hclaim | hclaim
    · exact hnofirst i ((h.first_iff i a ha).1 hclaim) i hedge
    · exact hnolast i ((h.last_iff i a ha).1 hclaim) i hedge

/-- What stands at a place is the handler at the position that stands there. -/
theorem getElem?_filterMap_positions {positions : List Nat}
    (hperm : positions.Perm (List.range links.length)) (k : Nat) :
    (positions.filterMap fun i => links[i]?)[k]? = positions[k]?.bind fun i => links[i]? := by
  have hlt : ∀ i ∈ positions, i < links.length := fun i hi =>
    List.mem_range.1 (hperm.mem_iff.1 hi)
  clear hperm
  induction positions generalizing k with
  | nil => rfl
  | cons i rest ih =>
    have hi := List.getElem?_eq_getElem (hlt i List.mem_cons_self)
    rw [List.filterMap_cons_some hi]
    cases k with
    | zero => simp [hi]
    | succ k => simpa using ih k fun j hj => hlt j (List.mem_cons_of_mem _ hj)

/-- What comes out of the ordering is in place, but for a handler that has the phase for itself. -/
theorem inPlace_of_orderPhase {phase : String} (h : orderPhase phase links = .ok ordered) :
    (Lone links ∧ ordered = links) ∨ InPlace ordered := by
  rcases orderPhase_ok_cases h with hlone | ⟨first, last, inner, hends, hapart, hfree, hinner, rfl⟩
  · exact Or.inl hlone
  refine Or.inr ?_
  have hin := hends.positionsInOrder hapart hfree (hends.innerPositions_eq.symm ▸ hinner)
  have hself := fun i => hends.not_precedes_self hfree hinner (i := i)
  generalize first.toList ++ inner ++ last.toList = positions at hin
  have hnodup : positions.Nodup := hin.perm.nodup_iff.2 List.nodup_range
  have hlength : (positions.filterMap fun i => links[i]?).length = positions.length := by
    have hperm := hin.perm.filterMap fun i => links[i]?
    rw [filterMap_range] at hperm
    rw [hperm.length_eq, hin.perm.length_eq, List.length_range]
  have hat : ∀ {k : Nat} {a : Link β}, (positions.filterMap fun i => links[i]?)[k]? = some a →
      k < positions.length ∧ ∃ i, positions[k]? = some i ∧ links[i]? = some a := fun {k a} ha => by
    rw [getElem?_filterMap_positions hin.perm] at ha
    obtain ⟨i, hi, hget⟩ := Option.bind_eq_some_iff.1 ha
    exact ⟨(List.getElem?_eq_some_iff.1 hi).1, i, hi, hget⟩
  refine ⟨?_, ?_, ?_⟩
  · intro k a ha hclaim
    obtain ⟨hk, i, hi, hget⟩ := hat ha
    have hhead := hin.first i a hget hclaim
    rw [List.head?_eq_getElem?, ← hi] at hhead
    exact ((List.getElem?_inj (by omega) hnodup).1 hhead).symm
  · intro k a ha hclaim
    obtain ⟨hk, i, hi, hget⟩ := hat ha
    have hlast := hin.last i a hget hclaim
    rw [List.getLast?_eq_getElem?, ← hi] at hlast
    have := (List.getElem?_inj (by omega) hnodup).1 hlast
    omega
  · intro k l a b ha hb hab
    obtain ⟨hk, i, hi, hgeta⟩ := hat ha
    obtain ⟨hl, j, hj, hgetb⟩ := hat hb
    have hedge := mem_precedences.2 ⟨a, b, hgeta, hgetb, hab⟩
    obtain ⟨_, rfl⟩ := List.getElem?_eq_some_iff.1 hi
    obtain ⟨_, rfl⟩ := List.getElem?_eq_some_iff.1 hj
    rcases Nat.lt_trichotomy k l with hlt | rfl | hlt
    · exact hlt
    · exact absurd hedge (hself _)
    · exact absurd hedge (List.pairwise_iff_getElem.1 hin.respects l k hl hk hlt)

/-- Handlers that were put in order stay in that order. -/
theorem orderPhase_orderPhase {phase : String} (h : orderPhase phase links = .ok ordered) :
    orderPhase phase ordered = .ok ordered := by
  rcases inPlace_of_orderPhase h with ⟨-, rfl⟩ | hplace
  · exact h
  · exact hplace.orderPhase_eq phase

/-! ### A chain that is resolved again -/

theorem inPhase_append (name : String) (front back : List (Link β)) :
    inPhase name (front ++ back) = inPhase name front ++ inPhase name back :=
  List.filter_append _ _

theorem inPhase_eq_nil {name : String} (h : ∀ a ∈ links, a.phase ≠ name) :
    inPhase name links = [] :=
  List.filter_eq_nil_iff.2 fun a ha => by simpa using h a ha

theorem inPhase_eq_self {name : String} (h : ∀ a ∈ links, a.phase = name) :
    inPhase name links = links :=
  List.filter_eq_self.2 fun a ha => by simpa using h a ha

/-- The phases are filled as they are from handlers that stand in their order. -/
theorem fillPhases_of_links {seen declared : List String} {phases : List (Phase β)}
    (h : fillPhases links seen declared = .ok phases) {all : List (Link β)}
    (hall : ∀ name, name ∉ seen → inPhase name all = inPhase name (phases.flatMap Phase.links)) :
    fillPhases all seen declared = .ok phases := by
  induction declared generalizing seen phases with
  | nil => exact h
  | cons name rest ih =>
    obtain ⟨ordered, tail, hordered, htail, rfl⟩ := fillPhases_cons_ok h
    have hmem : ∀ a ∈ ordered, a.phase = name ∧ a.phase ∉ seen := fun a ha =>
      (mem_bucket.1 ((orderPhase_inOrder hordered).perm.mem_iff.1 ha)).2
    have htailmem : ∀ a ∈ tail.flatMap Phase.links, a.phase ∉ name :: seen := fun a ha => by
      obtain ⟨phase, hphase, ha⟩ := List.mem_flatMap.1 ha
      exact ((fillPhases_filled htail).own phase hphase a ha).2
    have hbucket : bucket all seen name = ordered := by
      unfold bucket
      split
      · rename_i hseen
        refine (List.eq_nil_iff_forall_not_mem.2 fun a ha => ?_).symm
        obtain ⟨rfl, hnot⟩ := hmem a ha
        exact hnot hseen
      · rename_i hseen
        rw [hall name hseen, List.flatMap_cons, inPhase_append,
          inPhase_eq_self fun a ha => (hmem a ha).1,
          inPhase_eq_nil fun a ha hphase => htailmem a ha (hphase ▸ List.mem_cons_self),
          List.append_nil]
    have hrest := ih htail fun other hother => by
      rw [List.mem_cons, not_or] at hother
      rw [hall other hother.2, List.flatMap_cons, inPhase_append,
        inPhase_eq_nil fun a ha hphase => hother.1 (hphase.symm.trans (hmem a ha).1),
        List.nil_append]
    have hagain : orderPhase name (bucket all seen name) = .ok ordered := by
      rw [hbucket]
      exact orderPhase_orderPhase hordered
    rw [bucket, inPhase] at hagain
    simp only [fillPhases, bind, Except.bind]
    rw [hagain, hrest]
    rfl

/-- **A chain is resolved to itself.** -/
theorem resolve_links {order : PhaseOrder} {flow : Flow} {chain : Chain β}
    (h : resolve order flow links = .ok chain) : resolve order flow chain.links = .ok chain := by
  have hperm := perm_of_resolve h
  obtain ⟨hacc, phases, hphases, rfl⟩ := resolve_ok h
  have hcheck : checkContributions flow (order.phases flow) [] (Chain.links ⟨flow, phases⟩) =
      .ok () := by
    refine checkContributions_ok_iff.2 ⟨⟨?_, ?_⟩, by simp⟩
    · exact fun a ha => hacc.declared a (hperm.mem_iff.1 ha)
    · exact (hperm.map Link.name).nodup_iff.2 hacc.distinct
  have hfill : fillPhases (Chain.links ⟨flow, phases⟩) [] (order.phases flow) = .ok phases :=
    fillPhases_of_links hphases fun _ _ => rfl
  simp only [resolve, bind, Except.bind]
  rw [hcheck, hfill]
  rfl

/-! ### The least order -/

/-- The inner handlers of a phase that was put in order stand in the topological order of their
    positions. -/
theorem exists_sorted_of_orderPhase {phase : String} (h : orderPhase phase links = .ok ordered) :
    ∃ sorted, ordered.filter Link.isInner = sorted.filterMap (fun i => links[i]?) ∧
      topologicalOrder (innerIndices links) (precedences links) = .ok sorted := by
  rcases orderPhase_ok_cases h with ⟨⟨a, rfl, hfirst, -⟩, rfl⟩ |
    ⟨first, last, inner, hends, -, -, hinner, rfl⟩
  · have hempty : innerIndices [a] = [] := by
      simp [innerIndices, Link.isInner, hfirst]
    refine ⟨[], ?_, ?_⟩
    · simp [Link.isInner, hfirst]
    · rw [hempty]
      exact topologicalOrder_of_increasing .nil (by simp)
  · have hn := (pairwise_innerIndices links).imp fun h => h.ne
    have hmem : ∀ i ∈ inner, i ∈ innerIndices links := fun i hi =>
      (topologicalOrder_ok hn hinner).1.mem_iff.1 hi
    exact ⟨inner, hends.filter_isInner hmem, hinner⟩

/-- **The order of a phase is the least one.**  The handlers that claim neither end stand in the
    lexicographically least linear extension of their constraints, by position of registration: at
    each place the earliest registered one whose predecessors have come.  How positions and
    constraints are listed does not matter.  A phase in order stays as it is, and a chain is
    resolved to itself. -/
theorem orderPhase_least (phase : String) (links : List (Link β)) :
    (∀ ordered, orderPhase phase links = .ok ordered →
      ∃ sorted, ordered.filter Link.isInner = sorted.filterMap (fun i => links[i]?) ∧
        LinearExtension (innerIndices links) (precedences links) sorted ∧
        (∀ other, LinearExtension (innerIndices links) (precedences links) other →
          LexLe sorted other) ∧
        Greedy (innerIndices links) (precedences links) sorted ∧
        ∀ nodes edges, nodes.Perm (innerIndices links) → edges.Perm (precedences links) →
          topologicalOrder nodes edges = .ok sorted) ∧
      (InPlace links → orderPhase phase links = .ok links) ∧
      ∀ order flow chain, resolve order flow links = .ok chain →
        resolve order flow chain.links = .ok chain := by
  refine ⟨?_, fun h => h.orderPhase_eq phase, fun _ _ _ => resolve_links⟩
  intro ordered h
  obtain ⟨sorted, hsorted, hok⟩ := exists_sorted_of_orderPhase h
  have hn : (innerIndices links).Nodup := (pairwise_innerIndices links).imp fun h => h.ne
  obtain ⟨hext, hgreedy⟩ := greedy_of_topologicalOrder_ok hn hok
  exact ⟨sorted, hsorted, hext, fun _ hother => hgreedy.le_of_linearExtension hn hother, hgreedy,
    fun _ _ hnodes hedges => topologicalOrder_ok_perm hn hnodes hedges hok⟩

/-- Handlers with both claims and a constraint, registered in another order. -/
def shuffled : List (Link Unit) := [
  ⟨{ name := "tail", phase := "A", last := true }, ()⟩,
  ⟨{ name := "x", phase := "A" }, ()⟩,
  ⟨{ name := "y", phase := "A" }, ()⟩,
  ⟨{ name := "z", phase := "A", before := .ofList ["x"] }, ()⟩,
  ⟨{ name := "head", phase := "A", first := true }, ()⟩]

/-- The shuffled handlers, put in order, and that order put in order again. -/
theorem orderPhase_least_shuffled :
    ∃ ordered chain, orderPhase "A" shuffled = .ok ordered ∧
      ordered.map Link.name = ["head", "y", "z", "x", "tail"] ∧
      (∃ sorted, ordered.filter Link.isInner = sorted.filterMap (fun i => shuffled[i]?) ∧
        Greedy (innerIndices shuffled) (precedences shuffled) sorted ∧
        topologicalOrder [3, 1, 2] [(3, 1)] = .ok sorted) ∧
      InPlace ordered ∧ orderPhase "A" ordered = .ok ordered ∧
      resolve (.uniform ["A"]) .inbound shuffled = .ok chain ∧
      resolve (.uniform ["A"]) .inbound chain.links = .ok chain := by
  obtain ⟨ordered, hordered, hnames⟩ : ∃ ordered, orderPhase "A" shuffled = .ok ordered ∧
      ordered.map Link.name = ["head", "y", "z", "x", "tail"] := ⟨_, rfl, rfl⟩
  obtain ⟨chain, hchain⟩ :
      ∃ chain, resolve (.uniform ["A"]) .inbound shuffled = .ok chain := ⟨_, rfl⟩
  obtain ⟨hleast, -, hagain⟩ := orderPhase_least "A" shuffled
  obtain ⟨sorted, hfilter, -, -, hgreedy, hlisted⟩ := hleast ordered hordered
  have hplace : InPlace ordered := by
    refine (inPlace_of_orderPhase hordered).resolve_left ?_
    rintro ⟨⟨a, ha, -⟩, -⟩
    cases ha
  exact ⟨ordered, chain, hordered, hnames,
    ⟨sorted, hfilter, hgreedy, hlisted _ _ (by decide) (by decide)⟩, hplace,
    (orderPhase_least "A" ordered).2.1 hplace, hchain, hagain _ _ _ hchain⟩

end ExchangePipeline
