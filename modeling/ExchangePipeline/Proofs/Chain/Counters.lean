/-
  ExchangePipeline/Proofs/Chain/Counters.lean
  ===========================================
  **The counters of a sorting are exact at every moment.**

  The loop that puts nodes in order goes on in pieces: it takes a ready node and
  places it, or it releases one successor of the node placed last
  (`Moment.Next`).  What a piece keeps is `Moment.Tracked`, so it holds at every
  moment of the loop, also between two releases.

  A counter then tells the edges that come from listed nodes not yet placed, and
  those from the node placed last that are still to be taken off.  So no counter is
  lowered that is zero, and no node becomes ready or is placed twice; and since no
  more nodes are taken than there are, the loop ends, wherever it stands
  (`topologicalOrder_counters`).
-/
import ExchangePipeline.Proofs.Chain.Sorting

namespace ExchangePipeline

open scoped List

namespace Sorting

/-! ### Moments -/

/-- A moment of the loop, with a record of what has been done. -/
structure Moment where
  sorting : Sorting
  /-- The successors of the node placed last that are still to be released. -/
  pending : List Nat
  /-- The nodes that have been put among the ready ones, each as often as that was done. -/
  entered : List Nat
  /-- How often a node has been taken from the ready ones. -/
  taken : Nat
deriving DecidableEq

/-- The nodes that a release puts among the ready ones. -/
def freed (s : Sorting) (n : Nat) : List Nat :=
  match s.degree? n with
  | none => []
  | some d => if d - 1 = 0 then [n] else []

namespace Moment

/-- Nothing is taken yet. -/
def first (nodes : List Nat) (edges : List (Nat × Nat)) : Moment where
  sorting := start nodes (edgesWithin nodes edges)
  pending := []
  entered := (start nodes (edgesWithin nodes edges)).ready
  taken := 0

/-- One piece of the loop. -/
inductive Next (edges : List (Nat × Nat)) : Moment → Moment → Prop
  | takes {m : Moment} {n : Nat} {rest : List Nat} (done : m.pending = [])
      (ready : m.sorting.ready = n :: rest) :
      Next edges m {
        sorting := { m.sorting with ready := rest, placed := m.sorting.placed ++ [n] }
        pending := successors edges n
        entered := m.entered
        taken := m.taken + 1 }
  | releases {m : Moment} {n : Nat} {rest : List Nat} (due : m.pending = n :: rest) :
      Next edges m {
        sorting := m.sorting.release n
        pending := rest
        entered := m.entered ++ m.sorting.freed n
        taken := m.taken }

/-- Any number of pieces of the loop that sorts `nodes` along `edges`. -/
def Later (nodes : List Nat) (edges : List (Nat × Nat)) : Moment → Moment → Prop :=
  Relation.ReflTransGen (Next (edgesWithin nodes edges))

/-! ### The loop goes through its moments -/

variable {nodes : List Nat} {edges : List (Nat × Nat)} {m : Moment}

theorem exists_released (pending : List Nat) (s : Sorting) (entered : List Nat) (taken : Nat) :
    ∃ entered', Relation.ReflTransGen (Next edges) ⟨s, pending, entered, taken⟩
      ⟨pending.foldl release s, [], entered', taken⟩ := by
  induction pending generalizing s entered with
  | nil => exact ⟨entered, .refl⟩
  | cons n rest ih =>
    obtain ⟨entered', hrest⟩ := ih (s.release n) (entered ++ s.freed n)
    exact ⟨entered', .head (.releases rfl) hrest⟩

/-- A step is made of pieces. -/
theorem exists_stepped {t : Sorting} (hm : m.pending = []) (hs : m.sorting.step? edges = some t) :
    ∃ m', Relation.ReflTransGen (Next edges) m m' ∧ m'.pending = [] ∧ m'.sorting = t := by
  cases hr : m.sorting.ready with
  | nil => simp [step?, hr] at hs
  | cons n rest =>
    simp only [step?, hr, Option.some.injEq] at hs
    obtain ⟨entered, hreleased⟩ := @exists_released edges (successors edges n)
      { m.sorting with ready := rest, placed := m.sorting.placed ++ [n] } m.entered (m.taken + 1)
    exact ⟨_, .head (.takes hm hr) hreleased, rfl, hs⟩

/-- So is the loop. -/
theorem exists_run (hm : m.pending = []) (fuel : Nat) :
    ∃ m', Relation.ReflTransGen (Next edges) m m' ∧ m'.pending = [] ∧
      m'.sorting = run edges fuel m.sorting := by
  induction fuel generalizing m with
  | zero => exact ⟨m, .refl, hm, rfl⟩
  | succ fuel ih =>
    rw [run]
    cases hs : m.sorting.step? edges with
    | none => exact ⟨m, .refl, hm, rfl⟩
    | some t =>
      obtain ⟨u, hstep, hu, rfl⟩ := exists_stepped hm hs
      obtain ⟨v, hrun, hv, hsorting⟩ := ih hu
      exact ⟨v, hstep.trans hrun, hv, hsorting⟩

theorem next_rightUnique : Relator.RightUnique (Next edges) := by
  intro m a b ha hb
  cases ha with
  | takes done ready =>
    cases hb with
    | takes done' ready' =>
      rw [ready, List.cons.injEq] at ready'
      obtain ⟨rfl, rfl⟩ := ready'
      rfl
    | releases due => simp [done] at due
  | releases due =>
    cases hb with
    | takes done ready => simp [done] at due
    | releases due' =>
      rw [due, List.cons.injEq] at due'
      obtain ⟨rfl, rfl⟩ := due'
      rfl

theorem not_next {m' : Moment} (hm : m.pending = []) (hr : m.sorting.ready = []) :
    ¬ Next edges m m' := by
  rintro (⟨-, ready⟩ | ⟨due⟩)
  · simp [hr] at ready
  · simp [hm] at due

/-- From every moment the loop goes on to its end. -/
theorem Later.end_of_later {m' last : Moment} (h : Later nodes edges m last)
    (hlast : last.pending = []) (hready : last.sorting.ready = []) (h' : Later nodes edges m m') :
    Later nodes edges m' last := by
  rcases Relation.ReflTransGen.total_of_right_unique next_rightUnique h' h with hend | hpast
  · exact hend
  · rcases Relation.ReflTransGen.cases_head hpast with rfl | ⟨_, hnext, -⟩
    · exact .refl
    · exact absurd hnext (not_next hlast hready)

/-! ### What the pieces keep -/

/-- A moment as it is reached from the first one, for edges between listed nodes. -/
structure Tracked (nodes : List Nat) (edges : List (Nat × Nat)) (m : Moment) : Prop where
  midway : Midway nodes edges m.pending m.sorting
  wellPlaced : WellPlaced nodes edges m.sorting.placed
  uncounted : ∀ n, n ∉ nodes → m.sorting.degree? n = none
  entered : m.entered.Perm (m.sorting.placed ++ m.sorting.ready)
  taken : m.taken = m.sorting.placed.length

theorem insertOrdered_perm (n : Nat) (l : List Nat) : (insertOrdered n l).Perm (n :: l) := by
  induction l with
  | nil => exact .refl _
  | cons k rest ih =>
    by_cases h : n ≤ k
    · simp [insertOrdered, h]
    · simp only [insertOrdered, h, if_false]
      exact (ih.cons k).trans (.swap n k rest)

theorem ready_release_perm (s : Sorting) (n : Nat) :
    (s.release n).ready.Perm (s.ready ++ s.freed n) := by
  unfold release freed
  cases s.degree? n with
  | none => simp
  | some d =>
    by_cases h : d - 1 = 0
    · simp only [h, if_true]
      exact (insertOrdered_perm n s.ready).trans (List.perm_append_singleton n s.ready).symm
    · simp [h]

theorem tracked_first (hn : nodes.Nodup) (edges : List (Nat × Nat)) :
    Tracked nodes (edgesWithin nodes edges) (first nodes edges) := by
  have hstart : Sound nodes (edgesWithin nodes edges) (first nodes edges).sorting := sound_start hn
  refine ⟨hstart.midway, hstart.wellPlaced, ?_, .refl _, rfl⟩
  intro n hn
  rw [degree?, List.lookup_eq_none_iff]
  intro entry hentry
  obtain ⟨k, hk, rfl⟩ := List.mem_map.1 hentry
  rw [bne_iff_ne]
  rintro rfl
  exact hn hk

/-- **One piece** keeps a moment tracked. -/
theorem Tracked.next {m' : Moment} (h : Tracked nodes edges m)
    (hin : ∀ edge ∈ edges, edge.2 ∈ nodes) (hnext : Next edges m m') :
    Tracked nodes edges m' := by
  cases hnext with
  | @takes n rest done ready =>
    obtain ⟨hmidway, hplaced⟩ := (done ▸ h.midway).take h.wellPlaced hin ready
    refine ⟨hmidway, hplaced, h.uncounted, ?_, ?_⟩
    · simpa [ready] using h.entered
    · simp [h.taken]
  | @releases n rest due =>
    refine ⟨(due ▸ h.midway).release, ?_, ?_, ?_, ?_⟩
    · rw [placed_release]
      exact h.wellPlaced
    · intro k hk
      have hne : k ≠ n := by
        rintro rfl
        exact hk (h.midway.pending_subset (by simp [due]))
      rw [degree?_release, if_neg hne]
      exact h.uncounted k hk
    · rw [placed_release]
      have hready := ready_release_perm m.sorting n
      calc m.entered ++ m.sorting.freed n
          _ ~ m.sorting.placed ++ m.sorting.ready ++ m.sorting.freed n := h.entered.append_right _
          _ = m.sorting.placed ++ (m.sorting.ready ++ m.sorting.freed n) := List.append_assoc _ _ _
          _ ~ m.sorting.placed ++ (m.sorting.release n).ready := hready.symm.append_left _
    · rw [placed_release]
      exact h.taken

/-- **The loop** keeps its moments tracked. -/
theorem Tracked.later {m' : Moment} (h : Tracked nodes (edgesWithin nodes edges) m)
    (hlater : Later nodes edges m m') : Tracked nodes (edgesWithin nodes edges) m' := by
  induction hlater with
  | refl => exact h
  | tail _ hnext ih =>
    refine ih.next ?_ hnext
    rintro ⟨a, b⟩ hedge
    exact (mem_edgesWithin.1 hedge).2.2

end Moment

/-! ### Counters, ready nodes and the end -/

/-- The number of edges into a node from listed nodes that are not placed. -/
def unplacedInto (nodes : List Nat) (edges : List (Nat × Nat)) (placed : List Nat) (n : Nat) :
    Nat :=
  edges.countP fun edge => edge.2 = n && nodes.contains edge.1 && !placed.contains edge.1

theorem waiting_edgesWithin {nodes placed : List Nat} {n : Nat} (hn : n ∈ nodes)
    (edges : List (Nat × Nat)) :
    waiting (edgesWithin nodes edges) placed n = unplacedInto nodes edges placed n := by
  rw [waiting, edgesWithin, List.countP_filter, unplacedInto]
  congr 1
  funext edge
  by_cases hedge : edge.2 = n
  · simp [hedge, hn, Bool.and_comm]
  · simp [hedge]

/-- The counters, the ready nodes and the placed nodes at a moment of the loop. -/
structure Moment.Exact (nodes : List Nat) (edges : List (Nat × Nat)) (m : Moment) : Prop where
  /-- The counter of a listed node tells the edges into it from listed nodes that are not placed,
      and those from the node placed last that are still to be taken off.  No other node has a
      counter. -/
  counter : ∀ n, m.sorting.degree? n =
    if n ∈ nodes then some (unplacedInto nodes edges m.sorting.placed n + m.pending.count n)
    else none
  /-- What is lowered next is not zero. -/
  positive : ∀ n rest, m.pending = n :: rest → ∃ d, m.sorting.degree? n = some (d + 1)
  /-- Ready is what is not placed and waits for nothing that is not placed.  A node that is still to
      be released joins the others with its last release. -/
  ready : ∀ n, n ∈ m.sorting.ready ↔ n ∈ nodes ∧ n ∉ m.sorting.placed ∧
    (∀ k ∈ nodes, (k, n) ∈ edges → k ∈ m.sorting.placed) ∧ n ∉ m.pending
  entered_nodup : m.entered.Nodup
  /-- What has become ready is placed, or still ready. -/
  entered_perm : m.entered.Perm (m.sorting.placed ++ m.sorting.ready)
  placed_nodup : m.sorting.placed.Nodup
  taken_eq : m.taken = m.sorting.placed.length
  taken_le : m.taken ≤ nodes.length

theorem Moment.Tracked.exact {nodes : List Nat} {edges : List (Nat × Nat)} {m : Moment}
    (h : Tracked nodes (edgesWithin nodes edges) m) : m.Exact nodes edges := by
  have hapart : (m.sorting.placed ++ m.sorting.ready).Nodup := by
    refine h.wellPlaced.nodup.append ?_ ?_
    · exact h.midway.increasing.imp fun hlt => Nat.ne_of_lt hlt
    · intro n hplaced hready
      exact ((h.midway.mem_ready n).1 hready).2.1 hplaced
  refine
    { counter := fun n => ?_
      positive := fun n rest hdue => ?_
      ready := fun n => ?_
      entered_nodup := h.entered.nodup_iff.2 hapart
      entered_perm := h.entered
      placed_nodup := h.wellPlaced.nodup
      taken_eq := h.taken
      taken_le := h.taken ▸ h.wellPlaced.length_le }
  · by_cases hn : n ∈ nodes
    · rw [if_pos hn, h.midway.degree n hn, waiting_edgesWithin hn]
    · rw [if_neg hn, h.uncounted n hn]
  · obtain ⟨d, hd, -⟩ := (hdue ▸ h.midway).exists_degree
    exact ⟨d, hd⟩
  · rw [h.midway.mem_ready, waiting_eq_zero_iff]
    refine and_congr_right fun hn => and_congr_right fun _ => and_congr_left fun _ => ?_
    simp only [mem_edgesWithin]
    constructor
    · intro hall k hk hedge
      exact hall k ⟨hedge, hk, hn⟩
    · rintro hall k ⟨hedge, hk, -⟩
      exact hall k hk hedge

end Sorting

open Sorting

/-- **The counters are exact** at every moment of a sorting, whatever circles there are and whatever
    edges lead elsewhere.  Before a node is taken, they tell just the edges from nodes that are not
    placed.  From every moment the loop goes on to one end, where nothing is ready, and what is
    placed there makes the answer. -/
theorem topologicalOrder_counters {nodes : List Nat} (hn : nodes.Nodup) (edges : List (Nat × Nat)) :
    (∀ m, Moment.Later nodes edges (.first nodes edges) m →
      m.Exact nodes edges ∧
      (m.pending = [] → ∀ n,
        (n ∈ nodes →
          m.sorting.degree? n = some (unplacedInto nodes edges m.sorting.placed n)) ∧
        (n ∈ m.sorting.ready ↔ n ∈ nodes ∧ n ∉ m.sorting.placed ∧
          ∀ k ∈ nodes, (k, n) ∈ edges → k ∈ m.sorting.placed))) ∧
    ∃ last, Moment.Later nodes edges (.first nodes edges) last ∧
      last.pending = [] ∧ last.sorting.ready = [] ∧
      (∀ m, Moment.Later nodes edges (.first nodes edges) m → Moment.Later nodes edges m last) ∧
      topologicalOrder nodes edges =
        if last.sorting.placed.length = nodes.length then .ok last.sorting.placed
        else .error (nodes.filter fun n => !last.sorting.placed.contains n) := by
  constructor
  · intro m hm
    have hexact := ((Moment.tracked_first hn edges).later hm).exact
    refine ⟨hexact, fun hpending n => ⟨fun hmem => ?_, ?_⟩⟩
    · have hcounter := hexact.counter n
      rwa [if_pos hmem, hpending, List.count_nil, Nat.add_zero] at hcounter
    · simpa only [hpending, List.not_mem_nil, not_false_eq_true, and_true] using hexact.ready n
  obtain ⟨last, hlater, hpending, hsorting⟩ :=
    @Moment.exists_run (edgesWithin nodes edges) (.first nodes edges) rfl nodes.length
  have hfinal : last.sorting = final nodes edges := hsorting
  have hready : last.sorting.ready = [] := hfinal ▸ (sound_final hn edges).2
  refine ⟨last, hlater, hpending, hready, fun m hm => ?_, ?_⟩
  · exact Moment.Later.end_of_later hlater hpending hready hm
  · rw [topologicalOrder_eq, hfinal]

/-- Node 3 leads to itself, node 2 waits for it, and two edges lead elsewhere. -/
def loopEdges : List (Nat × Nat) :=
  [(0, 1), (0, 2), (1, 2), (2, 9), (3, 2), (3, 3), (7, 0)]

/-- Node 0 has been taken and node 1 released; one edge into node 2 is still to be taken off. -/
def loopMoment : Moment where
  sorting := { degrees := [(0, 0), (1, 0), (2, 3), (3, 1)], ready := [1], placed := [0] }
  pending := [2]
  entered := [0, 1]
  taken := 1

theorem topologicalOrder_counters_of_loop :
    ([0, 1, 2, 3] : List Nat).Nodup ∧
    Moment.Later [0, 1, 2, 3] loopEdges (.first [0, 1, 2, 3] loopEdges) loopMoment ∧
    loopMoment.Exact [0, 1, 2, 3] loopEdges := by
  have hn : ([0, 1, 2, 3] : List Nat).Nodup := by decide
  have hlater : Moment.Later [0, 1, 2, 3] loopEdges (.first [0, 1, 2, 3] loopEdges) loopMoment :=
    .head (.takes rfl rfl) (.head (.releases rfl) .refl)
  exact ⟨hn, hlater, ((topologicalOrder_counters hn loopEdges).1 loopMoment hlater).1⟩

end ExchangePipeline
