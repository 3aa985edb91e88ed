/-
  ExchangePipeline/Proofs/Chain/Sorting.lean
  ==========================================
  **The sorting of numbered nodes is right, and complete.**

  What the loop keeps is `Sorting.Sound`: every count tells the edges that come
  from nodes not yet placed, the ready nodes are exactly the unplaced nodes whose
  count is zero, and every edge into a placed node comes from an earlier one.  A
  step places a node and then releases its successors one by one; in its middle the
  counts of those still to be released are that much higher (`Sorting.Midway`).
  `Midway.take` and `Midway.release` are the two pieces, `Sound.step` is the one
  step, `Sound.run` the whole loop.

  When the loop ends nothing is ready.  Then either everything is placed, in an
  order along which all edges run forward (`topologicalOrder_ok`), or every node
  that is left waits for another one that is left (`topologicalOrder_error`),
  and so there is a cycle among them (`exists_cycle`).
-/
import ExchangePipeline.Chain.Sorting
import Mathlib.Data.Fintype.Card
import Mathlib.Data.Set.Finite.List
import Mathlib.Data.List.Perm.Subperm
import Mathlib.Logic.Relation
import Mathlib.Order.WellFounded

namespace ExchangePipeline

namespace Sorting

/-! ### Counts of predecessors -/

/-- The number of edges to a node from nodes that are not placed. -/
def waiting (edges : List (Nat × Nat)) (placed : List Nat) (n : Nat) : Nat :=
  edges.countP fun edge => edge.2 = n && !placed.contains edge.1

/-- The edges that one more placed node takes off a count are those that lead from it. -/
theorem waiting_append (edges : List (Nat × Nat)) {placed : List Nat} {n : Nat}
    (hn : n ∉ placed) (m : Nat) :
    waiting edges (placed ++ [n]) m + (successors edges n).count m = waiting edges placed m := by
  induction edges with
  | nil => rfl
  | cons edge rest ih =>
    obtain ⟨a, b⟩ := edge
    have ih' : rest.countP (fun edge => edge.2 = m && !(placed ++ [n]).contains edge.1)
        + (successors rest n).count m
        = rest.countP (fun edge => edge.2 = m && !placed.contains edge.1) := ih
    simp only [waiting, successors] at ih' ⊢
    by_cases ha : a = n
    · subst ha
      by_cases hb : b = m
      · subst hb
        simp only [List.countP_cons, List.filter_cons]
        simp [hn]
        simp at ih'
        omega
      · simp only [List.countP_cons, List.filter_cons]
        simp [hb]
        simpa using ih'
    · simp only [List.countP_cons, List.filter_cons]
      simp [ha]
      simp at ih'
      omega

theorem waiting_eq_zero_iff {edges : List (Nat × Nat)} {placed : List Nat} {n : Nat} :
    waiting edges placed n = 0 ↔ ∀ m, (m, n) ∈ edges → m ∈ placed := by
  rw [waiting, List.countP_eq_zero]
  constructor
  · intro h m hm
    simpa using h (m, n) hm
  · rintro h ⟨m, k⟩ hm
    by_cases hk : k = n
    · subst hk
      simpa using h m hm
    · simp [hk]

/-! ### The increasing list of ready nodes -/

theorem mem_insertOrdered {n m : Nat} {l : List Nat} :
    m ∈ insertOrdered n l ↔ m = n ∨ m ∈ l := by
  induction l with
  | nil => simp [insertOrdered]
  | cons k rest ih =>
    by_cases h : n ≤ k
    · simp [insertOrdered, h]
    · simp only [insertOrdered, h, if_false, List.mem_cons, ih]
      tauto

/-- A new node keeps the list strictly increasing. -/
theorem pairwise_insertOrdered {n : Nat} {l : List Nat} (h : l.Pairwise (· < ·)) (hn : n ∉ l) :
    (insertOrdered n l).Pairwise (· < ·) := by
  induction l with
  | nil => simp [insertOrdered]
  | cons k rest ih =>
    obtain ⟨hk, hrest⟩ := List.pairwise_cons.1 h
    have hnk : n ≠ k := fun e => hn (by simp [e])
    by_cases hle : n ≤ k
    · simp only [insertOrdered, hle, if_true]
      refine List.pairwise_cons.2 ⟨?_, h⟩
      intro m hm
      rcases List.mem_cons.1 hm with rfl | hm
      · omega
      · have := hk m hm
        omega
    · simp only [insertOrdered, hle, if_false]
      refine List.pairwise_cons.2 ⟨?_, ih hrest fun hmem => hn (List.mem_cons_of_mem _ hmem)⟩
      intro m hm
      rcases mem_insertOrdered.1 hm with rfl | hm
      · omega
      · exact hk m hm

/-! ### Releasing successors -/

@[simp] theorem placed_release (s : Sorting) (n : Nat) : (s.release n).placed = s.placed := by
  unfold release
  cases s.degree? n <;> rfl

@[simp] theorem placed_foldl_release (targets : List Nat) (s : Sorting) :
    (targets.foldl release s).placed = s.placed := by
  induction targets generalizing s with
  | nil => rfl
  | cons n rest ih => rw [List.foldl_cons, ih, placed_release]

/-- Writing one entry of a table changes what is found there, and nothing else. -/
theorem lookup_map_write (l : List (Nat × Nat)) (n d m : Nat) :
    (l.map fun entry => if entry.1 = n then (n, d) else entry).lookup m =
      if m = n then (l.lookup n).map fun _ => d else l.lookup m := by
  induction l with
  | nil => simp
  | cons entry rest ih =>
    obtain ⟨a, b⟩ := entry
    by_cases ha : a = n
    · subst ha
      by_cases hm : m = a
      · simp [hm]
      · have hb : (m == a) = false := by simpa using hm
        simpa [List.lookup_cons, hm, hb] using ih
    · have hb : (n == a) = false := by simpa using Ne.symm ha
      by_cases hm : m = n
      · subst hm
        simpa [List.lookup_cons, ha, hb] using ih
      · rw [if_neg hm] at ih ⊢
        simp only [List.map_cons, ha, if_false, List.lookup_cons, ih]

/-- Releasing a node changes its own count only. -/
theorem degree?_release (s : Sorting) (n m : Nat) :
    (s.release n).degree? m = if m = n then (s.degree? n).map (· - 1) else s.degree? m := by
  unfold release
  cases hd : s.degree? n with
  | none =>
    by_cases hm : m = n
    · simp [hm, hd]
    · simp [hm]
  | some d =>
    have hl : s.degrees.lookup n = some d := hd
    simp only [degree?, lookup_map_write, hl]
    rfl

/-- A node is ready after a release if it was before, or if it has lost its last predecessor. -/
theorem mem_ready_release {s : Sorting} {n m : Nat} :
    m ∈ (s.release n).ready ↔ m ∈ s.ready ∨ (m = n ∧ ∃ d ≤ 1, s.degree? n = some d) := by
  unfold release
  cases hd : s.degree? n with
  | none => simp
  | some d =>
    by_cases h : d - 1 = 0
    · have hle : d ≤ 1 := by omega
      simp only [h, if_true, mem_insertOrdered]
      constructor
      · rintro (rfl | hm)
        · exact Or.inr ⟨rfl, d, hle, rfl⟩
        · exact Or.inl hm
      · rintro (hm | ⟨rfl, _⟩)
        · exact Or.inr hm
        · exact Or.inl rfl
    · have hlt : ¬ d ≤ 1 := by omega
      simp [h, hlt]

/-! ### What the loop keeps -/

variable {nodes placed pending : List Nat} {edges : List (Nat × Nat)} {s : Sorting} {n : Nat}

/-- A sorting of `nodes` along `edges` that is under way. -/
structure Sound (nodes : List Nat) (edges : List (Nat × Nat)) (s : Sorting) : Prop where
  degree : ∀ n ∈ nodes, s.degree? n = some (waiting edges s.placed n)
  mem_ready : ∀ n, n ∈ s.ready ↔ n ∈ nodes ∧ n ∉ s.placed ∧ waiting edges s.placed n = 0
  increasing : s.ready.Pairwise (· < ·)
  placed_nodup : s.placed.Nodup
  placed_subset : s.placed ⊆ nodes
  /-- Edges into placed nodes run forward. -/
  forward : ∀ m n, (m, n) ∈ edges → n ∈ s.placed → s.placed.idxOf m < s.placed.idxOf n

/-- Placed nodes are listed nodes, each once, and edges into them run forward. -/
structure WellPlaced (nodes : List Nat) (edges : List (Nat × Nat)) (placed : List Nat) : Prop where
  nodup : placed.Nodup
  subset : placed ⊆ nodes
  forward : ∀ m n, (m, n) ∈ edges → n ∈ placed → placed.idxOf m < placed.idxOf n

theorem Sound.wellPlaced (h : Sound nodes edges s) : WellPlaced nodes edges s.placed :=
  ⟨h.placed_nodup, h.placed_subset, h.forward⟩

/-- Whatever leads to a placed node is placed. -/
theorem WellPlaced.waiting_of_mem (h : WellPlaced nodes edges placed) (hn : n ∈ placed) :
    waiting edges placed n = 0 := by
  rw [waiting_eq_zero_iff]
  intro m hm
  have hlt := h.forward m n hm hn
  have hlen := List.idxOf_lt_length_iff.2 hn
  exact List.idxOf_lt_length_iff.1 (hlt.trans hlen)

/-- A node that waits for none may follow. -/
theorem WellPlaced.concat (h : WellPlaced nodes edges placed) (hn : n ∈ nodes) (hnew : n ∉ placed)
    (hzero : waiting edges placed n = 0) : WellPlaced nodes edges (placed ++ [n]) := by
  refine ⟨?_, ?_, ?_⟩
  · exact h.nodup.append (List.nodup_singleton n) (by simpa using hnew)
  · exact List.append_subset.2 ⟨h.subset, by simpa using hn⟩
  intro m k hedge hk
  rcases List.mem_append.1 hk with hk | hk
  · have hlt := h.forward m k hedge hk
    have hm : m ∈ placed := List.idxOf_lt_length_iff.1 (hlt.trans (List.idxOf_lt_length_iff.2 hk))
    rw [List.idxOf_append_of_mem hm, List.idxOf_append_of_mem hk]
    exact hlt
  · obtain rfl := List.mem_singleton.1 hk
    have hm : m ∈ placed := waiting_eq_zero_iff.1 hzero m hedge
    rw [List.idxOf_append_of_mem hm, List.idxOf_append_of_notMem hnew]
    exact Nat.lt_add_right _ (List.idxOf_lt_length_iff.2 hm)

/-- Placed nodes are no more than there are. -/
theorem WellPlaced.length_le (h : WellPlaced nodes edges placed) : placed.length ≤ nodes.length :=
  (List.subperm_of_subset h.nodup h.subset).length_le

theorem mem_foldr_insertOrdered {l : List Nat} {n : Nat} :
    n ∈ l.foldr insertOrdered [] ↔ n ∈ l := by
  induction l with
  | nil => simp
  | cons m rest ih => simp [mem_insertOrdered, ih]

theorem pairwise_foldr_insertOrdered {l : List Nat} (h : l.Nodup) :
    (l.foldr insertOrdered []).Pairwise (· < ·) := by
  induction l with
  | nil => exact List.Pairwise.nil
  | cons m rest ih =>
    obtain ⟨hm, hrest⟩ := List.nodup_cons.1 h
    exact pairwise_insertOrdered (ih hrest) fun hmem => hm (mem_foldr_insertOrdered.1 hmem)

theorem lookup_map_pair {f : Nat → Nat} {l : List Nat} {n : Nat} (h : n ∈ l) :
    (l.map fun m => (m, f m)).lookup n = some (f n) := by
  induction l with
  | nil => cases h
  | cons m rest ih =>
    by_cases hnm : n = m
    · simp [hnm]
    · have hb : (n == m) = false := by simpa using hnm
      simp only [List.map_cons, List.lookup_cons, hb]
      exact ih ((List.mem_cons.1 h).resolve_left hnm)

/-- The sorting starts out sound. -/
theorem sound_start (hn : nodes.Nodup) : Sound nodes edges (start nodes edges) := by
  have hwait : ∀ n, waiting edges [] n = edges.countP fun edge => edge.2 = n := by
    intro n
    simp [waiting]
  have hready : (start nodes edges).ready =
      (nodes.filter fun n => waiting edges [] n = 0).foldr insertOrdered [] := by
    simp only [start, List.filter_map, List.map_map, hwait]
    congr 1
    exact List.map_id _
  refine ⟨?_, ?_, ?_, List.nodup_nil, List.nil_subset _, ?_⟩
  · intro n hmem
    show (start nodes edges).degree? n = some (waiting edges [] n)
    rw [hwait]
    exact lookup_map_pair hmem
  · intro n
    rw [hready, mem_foldr_insertOrdered]
    simp [start]
  · rw [hready]
    exact pairwise_foldr_insertOrdered (hn.filter _)
  · intro m n _ hmem
    cases hmem

/-! ### The middle of a step -/

/-- A sorting in the middle of a step.  The nodes of `pending` are still to be released, each as
    often as it stands there, and their counts are that much higher. -/
structure Midway (nodes : List Nat) (edges : List (Nat × Nat)) (pending : List Nat)
    (s : Sorting) : Prop where
  degree : ∀ n ∈ nodes, s.degree? n = some (waiting edges s.placed n + pending.count n)
  mem_ready : ∀ n, n ∈ s.ready ↔
    n ∈ nodes ∧ n ∉ s.placed ∧ waiting edges s.placed n = 0 ∧ n ∉ pending
  increasing : s.ready.Pairwise (· < ·)
  pending_subset : pending ⊆ nodes
  unplaced : ∀ n ∈ pending, n ∉ s.placed

theorem Sound.midway (h : Sound nodes edges s) : Midway nodes edges [] s where
  degree n hn := by simpa using h.degree n hn
  mem_ready n := by simpa using h.mem_ready n
  increasing := h.increasing
  pending_subset := List.nil_subset _
  unplaced _ hn := by cases hn

theorem Midway.sound (h : Midway nodes edges [] s) (ho : WellPlaced nodes edges s.placed) :
    Sound nodes edges s where
  degree n hn := by simpa using h.degree n hn
  mem_ready n := by simpa using h.mem_ready n
  increasing := h.increasing
  placed_nodup := ho.nodup
  placed_subset := ho.subset
  forward := ho.forward

theorem mem_successors {n m : Nat} : m ∈ successors edges n ↔ (n, m) ∈ edges := by
  simp [successors]

/-- **A ready node is placed.**  Its successors are then to be released. -/
theorem Midway.take (h : Midway nodes edges [] s) (ho : WellPlaced nodes edges s.placed)
    (hin : ∀ edge ∈ edges, edge.2 ∈ nodes) {rest : List Nat} (hr : s.ready = n :: rest) :
    Midway nodes edges (successors edges n)
        { s with ready := rest, placed := s.placed ++ [n] } ∧
      WellPlaced nodes edges (s.placed ++ [n]) := by
  obtain ⟨hn, hnew, hzero, -⟩ := (h.mem_ready n).1 (by simp [hr])
  obtain ⟨hleast, hrest⟩ := List.pairwise_cons.1 (hr ▸ h.increasing)
  -- the count of a node splits into the edges from `n` and those from elsewhere
  have hsplit := waiting_append edges hnew
  refine ⟨⟨?_, ?_, hrest, ?_, ?_⟩, ho.concat hn hnew hzero⟩
  · intro m hm
    have hdegree := h.degree m hm
    rw [List.count_nil, Nat.add_zero, ← hsplit m] at hdegree
    exact hdegree
  · intro m
    have hwaits : waiting edges (s.placed ++ [n]) m = 0 ∧ m ∉ successors edges n ↔
        waiting edges s.placed m = 0 := by
      rw [← hsplit m, Nat.add_eq_zero_iff, List.count_eq_zero]
    rw [hwaits]
    have hready := h.mem_ready m
    rw [hr] at hready
    have hne : m ∈ rest → m ≠ n := fun hm => (hleast m hm).ne'
    simp only [List.mem_cons, List.not_mem_nil, not_false_eq_true, and_true] at hready
    simp only [List.mem_append, List.mem_singleton, not_or]
    tauto
  · intro m hm
    exact hin _ (mem_successors.1 hm)
  · intro m hm hplaced
    have hedge := mem_successors.1 hm
    rcases List.mem_append.1 hplaced with hplaced | hplaced
    · exact hnew (waiting_eq_zero_iff.1 (ho.waiting_of_mem hplaced) n hedge)
    · rw [List.mem_singleton.1 hplaced] at hedge
      exact hnew (waiting_eq_zero_iff.1 hzero n hedge)

/-- What is to be released next waits for something. -/
theorem Midway.exists_degree (h : Midway nodes edges (n :: pending) s) :
    ∃ d, s.degree? n = some (d + 1) ∧ d = waiting edges s.placed n + pending.count n := by
  refine ⟨_, ?_, rfl⟩
  rw [h.degree n (h.pending_subset List.mem_cons_self), List.count_cons_self]
  rfl

/-- **A successor is released.** -/
theorem Midway.release (h : Midway nodes edges (n :: pending) s) :
    Midway nodes edges pending (s.release n) := by
  obtain ⟨d, hd, hcount⟩ := h.exists_degree
  have hready : n ∉ s.ready := fun hmem => ((h.mem_ready n).1 hmem).2.2.2 List.mem_cons_self
  refine ⟨?_, ?_, ?_, ?_, ?_⟩
  · intro m hm
    rw [degree?_release, placed_release]
    by_cases hmn : m = n
    · subst hmn
      rw [if_pos rfl, hd, hcount]
      rfl
    · rw [if_neg hmn, h.degree m hm, List.count_cons_of_ne (Ne.symm hmn)]
  · intro m
    rw [mem_ready_release, placed_release, hd]
    by_cases hmn : m = n
    · subst hmn
      -- released for the last time, or waiting for more
      have hlast : (∃ d' ≤ 1, some (d + 1) = some d') ↔
          waiting edges s.placed m = 0 ∧ m ∉ pending := by
        rw [← List.count_eq_zero, ← Nat.add_eq_zero_iff, ← hcount]
        simp
      rw [hlast]
      have hm := h.pending_subset (List.mem_cons_self (a := m))
      have hnew := h.unplaced m List.mem_cons_self
      tauto
    · rw [h.mem_ready, List.mem_cons]
      tauto
  · unfold Sorting.release
    rw [hd]
    by_cases hz : d + 1 - 1 = 0
    · simpa only [hz, if_true] using pairwise_insertOrdered h.increasing hready
    · simpa only [hz, if_false] using h.increasing
  · exact fun m hm => h.pending_subset (List.mem_cons_of_mem n hm)
  · intro m hm
    rw [placed_release]
    exact h.unplaced m (List.mem_cons_of_mem n hm)

theorem Midway.releases (h : Midway nodes edges pending s) :
    Midway nodes edges [] (pending.foldl Sorting.release s) := by
  induction pending generalizing s with
  | nil => exact h
  | cons n rest ih => exact ih h.release

/-! ### Steps -/

/-- **One step.**  The smallest ready node is placed, and the sorting stays sound. -/
theorem Sound.step {t : Sorting} (h : Sound nodes edges s)
    (hin : ∀ edge ∈ edges, edge.2 ∈ nodes) (hs : s.step? edges = some t) :
    Sound nodes edges t ∧ ∃ n rest, s.ready = n :: rest ∧ t.placed = s.placed ++ [n] := by
  cases hr : s.ready with
  | nil => simp [step?, hr] at hs
  | cons n rest =>
    simp only [step?, hr, Option.some.injEq] at hs
    subst hs
    obtain ⟨hmidway, horder⟩ := h.midway.take h.wellPlaced hin hr
    have hplaced := placed_foldl_release (successors edges n)
      { s with ready := rest, placed := s.placed ++ [n] }
    exact ⟨hmidway.releases.sound (hplaced ▸ horder), n, rest, rfl, hplaced⟩

/-- **The loop.**  It stays sound, and with enough fuel it ends only when nothing is ready. -/
theorem Sound.run {s : Sorting} (h : Sound nodes edges s)
    (hin : ∀ edge ∈ edges, edge.2 ∈ nodes) (fuel : Nat)
    (hfuel : nodes.length ≤ s.placed.length + fuel) :
    Sound nodes edges (run edges fuel s) ∧ (run edges fuel s).ready = [] := by
  induction fuel generalizing s with
  | zero =>
    refine ⟨h, List.eq_nil_iff_forall_not_mem.2 ?_⟩
    intro n hn
    -- all nodes are placed by now, so none is left to be ready
    obtain ⟨hnodes, hnew, -⟩ := (h.mem_ready n).1 hn
    have hsub := List.subperm_of_subset h.placed_nodup h.placed_subset
    exact hnew ((hsub.perm_of_length_le (by omega)).mem_iff.2 hnodes)
  | succ fuel ih =>
    cases hs : s.step? edges with
    | none =>
      simp only [Sorting.run, hs]
      refine ⟨h, ?_⟩
      cases hr : s.ready with
      | nil => rfl
      | cons n rest => simp [step?, hr] at hs
    | some t =>
      simp only [Sorting.run, hs]
      obtain ⟨ht, n, rest, -, hplaced⟩ := h.step hin hs
      apply ih ht
      rw [hplaced, List.length_append, List.length_singleton]
      omega

end Sorting

/-! ### The order, or what cannot be placed -/

theorem mem_edgesWithin {nodes : List Nat} {edges : List (Nat × Nat)} {m n : Nat} :
    (m, n) ∈ Sorting.edgesWithin nodes edges ↔ (m, n) ∈ edges ∧ m ∈ nodes ∧ n ∈ nodes := by
  simp [Sorting.edgesWithin]

/-- The loop of a topological order at its end. -/
def Sorting.final (nodes : List Nat) (edges : List (Nat × Nat)) : Sorting :=
  .run (edgesWithin nodes edges) nodes.length (start nodes (edgesWithin nodes edges))

theorem topologicalOrder_eq (nodes : List Nat) (edges : List (Nat × Nat)) :
    topologicalOrder nodes edges =
      if (Sorting.final nodes edges).placed.length = nodes.length then
        .ok (Sorting.final nodes edges).placed
      else .error (nodes.filter fun n => !(Sorting.final nodes edges).placed.contains n) :=
  rfl

/-- How the loop ends for distinct nodes. -/
theorem Sorting.sound_final {nodes : List Nat} (hn : nodes.Nodup) (edges : List (Nat × Nat)) :
    Sound nodes (edgesWithin nodes edges) (final nodes edges) ∧ (final nodes edges).ready = [] := by
  refine (sound_start hn).run ?_ nodes.length (by simp [start])
  rintro ⟨m, n⟩ hedge
  exact (mem_edgesWithin.1 hedge).2.2

/-- **An order holds every node once, and the edges between them run forward.** -/
theorem topologicalOrder_ok {nodes sorted : List Nat} {edges : List (Nat × Nat)}
    (hn : nodes.Nodup) (h : topologicalOrder nodes edges = .ok sorted) :
    sorted.Perm nodes ∧
      ∀ m ∈ nodes, ∀ n ∈ nodes, (m, n) ∈ edges → sorted.idxOf m < sorted.idxOf n := by
  obtain ⟨hsound, -⟩ := Sorting.sound_final hn edges
  rw [topologicalOrder_eq] at h
  split at h
  · rename_i hlen
    cases h
    have hsub := List.subperm_of_subset hsound.placed_nodup hsound.placed_subset
    have hperm := hsub.perm_of_length_le (le_of_eq hlen.symm)
    refine ⟨hperm, ?_⟩
    intro m hm n hnn hedge
    exact hsound.forward m n (mem_edgesWithin.2 ⟨hedge, hm, hnn⟩) (hperm.mem_iff.2 hnn)
  · cases h

/-- **What cannot be placed waits for more of the same.** -/
theorem topologicalOrder_error {nodes stuck : List Nat} {edges : List (Nat × Nat)}
    (hn : nodes.Nodup) (h : topologicalOrder nodes edges = .error stuck) :
    stuck ≠ [] ∧ stuck ⊆ nodes ∧ ∀ n ∈ stuck, ∃ m ∈ stuck, (m, n) ∈ edges := by
  obtain ⟨hsound, hready⟩ := Sorting.sound_final hn edges
  rw [topologicalOrder_eq] at h
  split at h
  · cases h
  · rename_i hlen
    cases h
    have hmem : ∀ n, (n ∈ nodes.filter fun n => !(Sorting.final nodes edges).placed.contains n) ↔
        n ∈ nodes ∧ n ∉ (Sorting.final nodes edges).placed := by
      intro n
      simp
    refine ⟨?_, List.filter_subset_self _, ?_⟩
    · intro hnil
      -- if nothing is stuck, everything is placed
      have hsub : nodes ⊆ (Sorting.final nodes edges).placed := by
        intro n hnn
        by_contra hnot
        have hstuck := (hmem n).2 ⟨hnn, hnot⟩
        rw [hnil] at hstuck
        cases hstuck
      have hle := (List.subperm_of_subset hn hsub).length_le
      have hge := hsound.wellPlaced.length_le
      omega
    · intro n hstuck
      obtain ⟨hnn, hnot⟩ := (hmem n).1 hstuck
      have hnotready := (hsound.mem_ready n).not.1 (by simp [hready])
      have hwait : ¬ Sorting.waiting _ _ n = 0 := fun hz => hnotready ⟨hnn, hnot, hz⟩
      rw [Sorting.waiting_eq_zero_iff] at hwait
      push Not at hwait
      obtain ⟨m, hedge, hm⟩ := hwait
      obtain ⟨hedge, hmn, -⟩ := mem_edgesWithin.1 hedge
      exact ⟨m, (hmem m).2 ⟨hmn, hm⟩, hedge⟩

/-! ### Waiting in circles -/

/-- If every member of a list comes after another member, some member comes after itself. -/
theorem exists_cycle {α : Type} {r : α → α → Prop} {l : List α} (hne : l ≠ [])
    (h : ∀ a ∈ l, ∃ b ∈ l, r b a) :
    ∃ a ∈ l, Relation.TransGen (fun b c => b ∈ l ∧ c ∈ l ∧ r b c) a a := by
  classical
  by_contra hno
  push Not at hno
  let after : {a // a ∈ l} → {a // a ∈ l} → Prop := fun a b =>
    Relation.TransGen (fun b c => b ∈ l ∧ c ∈ l ∧ r b c) a.1 b.1
  have : IsTrans _ after := ⟨fun _ _ _ hab hbc => hab.trans hbc⟩
  have : Std.Irrefl after := ⟨fun a haa => hno a.1 a.2 haa⟩
  have hwf : WellFounded after := Finite.wellFounded_of_trans_of_irrefl _
  obtain ⟨a, ha⟩ := List.exists_mem_of_ne_nil l hne
  -- a first member has no predecessor in the list
  obtain ⟨m, -, hmin⟩ := hwf.has_min Set.univ ⟨⟨a, ha⟩, trivial⟩
  obtain ⟨b, hb, hbm⟩ := h m.1 m.2
  exact hmin ⟨b, hb⟩ trivial (Relation.TransGen.single ⟨hb, m.2, hbm⟩)

end ExchangePipeline
