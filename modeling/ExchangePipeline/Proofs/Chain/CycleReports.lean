/-
  ExchangePipeline/Proofs/Chain/CycleReports.lean
  ===============================================
  **How a circle is reported.**

  When the constraints of a phase run in a circle, the error lists the handlers that
  the sorting could not place.  The list is computed as what is left over, and says
  more than that: it holds exactly the handlers on a circle and those that have to
  come after one (`BehindCycle`), of the ones that claim neither end of the phase
  (`resolve_reports_cycle`).

  Both directions are about predecessors.  What is left over waits for more of the
  same, and so, in a finite list, for a circle (`behindCycle_of_forall`).  What was
  placed has all its predecessors placed before it, so no circle can lead there
  (`mem_stuck_of_behindCycle`).
-/
import ExchangePipeline.Proofs.Chain.LeastOrder

namespace ExchangePipeline

/-! ### Behind a circle -/

section

variable {α : Type} {r : α → α → Prop} {l : List α} {a : α}

/-- A relation, between the members of a list only. -/
def Among (l : List α) (r : α → α → Prop) (a b : α) : Prop :=
  a ∈ l ∧ b ∈ l ∧ r a b

/-- Something lies on a circle, or a circle leads to it. -/
def BehindCycle (r : α → α → Prop) (a : α) : Prop :=
  ∃ c, Relation.TransGen r c c ∧ Relation.ReflTransGen r c a

theorem BehindCycle.mono {s : α → α → Prop} (h : BehindCycle r a) (hrs : ∀ b c, r b c → s b c) :
    BehindCycle s a := by
  obtain ⟨c, hcycle, hway⟩ := h
  exact ⟨c, Relation.TransGen.mono hrs _ _ hcycle, Relation.ReflTransGen.mono hrs _ _ hway⟩

theorem BehindCycle.lift {β : Type} {s : β → β → Prop} (f : α → β) (h : BehindCycle r a)
    (hrs : ∀ b c, r b c → s (f b) (f c)) : BehindCycle s (f a) := by
  obtain ⟨c, hcycle, hway⟩ := h
  exact ⟨f c, hcycle.lift f hrs, hway.lift f hrs⟩

theorem BehindCycle.mem (h : BehindCycle (Among l r) a) : a ∈ l := by
  obtain ⟨c, hcycle, hway⟩ := h
  have hlast : Relation.TransGen (Among l r) c a := hcycle.trans_left hway
  rcases Relation.TransGen.tail'_iff.1 hlast with ⟨b, -, -, ha, -⟩
  exact ha

/-- **Where everyone waits for another**, everyone waits for a circle. -/
theorem behindCycle_of_forall (h : ∀ a ∈ l, ∃ b ∈ l, r b a) (ha : a ∈ l) :
    BehindCycle (Among l r) a := by
  classical
  -- those that lead to `a` wait for each other as well
  let before := l.filter fun b => Relation.ReflTransGen (Among l r) b a
  have hbefore : ∀ b, b ∈ before ↔ b ∈ l ∧ Relation.ReflTransGen (Among l r) b a := by
    intro b
    simp [before]
  have hne : before ≠ [] := List.ne_nil_of_mem ((hbefore a).2 ⟨ha, .refl⟩)
  have hwait : ∀ b ∈ before, ∃ c ∈ before, r c b := by
    intro b hb
    obtain ⟨hb, hway⟩ := (hbefore b).1 hb
    obtain ⟨c, hc, hcb⟩ := h b hb
    exact ⟨c, (hbefore c).2 ⟨hc, .head ⟨hc, hb, hcb⟩ hway⟩, hcb⟩
  obtain ⟨c, hc, hcycle⟩ := exists_cycle hne hwait
  refine ⟨c, Relation.TransGen.mono ?_ _ _ hcycle, ((hbefore c).1 hc).2⟩
  rintro b d ⟨hb, hd, hbd⟩
  exact ⟨((hbefore b).1 hb).1, ((hbefore d).1 hd).1, hbd⟩

/-- No circle leads to where a number grows with every step and all predecessors count. -/
theorem not_behindCycle_of_rank {p : α → Prop} (rank : α → Nat)
    (h : ∀ b c, r b c → p c → p b ∧ rank b < rank c) (ha : p a) : ¬ BehindCycle r a := by
  rintro ⟨c, hcycle, hway⟩
  have hc : p c := by
    induction hway with
    | refl => exact ha
    | tail _ hstep ih => exact ih (h _ _ hstep ha).1
  have hgrows : ∀ d, Relation.TransGen r c d → p d → rank c < rank d := by
    intro d hcd
    induction hcd with
    | single hstep => exact fun hd => (h _ _ hstep hd).2
    | tail _ hstep ih => exact fun hd => (ih (h _ _ hstep hd).1).trans (h _ _ hstep hd).2
  exact lt_irrefl _ (hgrows c hcycle hc)

end

/-! ### What the sorting leaves over -/

section

variable {nodes stuck : List Nat} {edges : List (Nat × Nat)}

theorem stuck_eq_of_topologicalOrder_error (h : topologicalOrder nodes edges = .error stuck) :
    stuck = nodes.filter fun n => !(Sorting.final nodes edges).placed.contains n := by
  rw [topologicalOrder_eq] at h
  split at h
  · cases h
  · cases h
    rfl

/-- **What a circle leads to is left over**: along edges to placed nodes, places grow. -/
theorem mem_stuck_of_behindCycle (hn : nodes.Nodup)
    (h : topologicalOrder nodes edges = .error stuck) {n : Nat}
    (hbehind : BehindCycle (Among nodes fun m n => (m, n) ∈ edges) n) : n ∈ stuck := by
  obtain ⟨hsound, -⟩ := Sorting.sound_final hn edges
  by_contra hnot
  have hplaced : n ∈ (Sorting.final nodes edges).placed := by
    rw [stuck_eq_of_topologicalOrder_error h] at hnot
    simpa [hbehind.mem] using hnot
  refine not_behindCycle_of_rank (p := fun m => m ∈ (Sorting.final nodes edges).placed)
    (fun m => (Sorting.final nodes edges).placed.idxOf m) ?_ hplaced hbehind
  rintro m k ⟨hm, hk, hedge⟩ hkplaced
  have hlt := hsound.forward m k (mem_edgesWithin.2 ⟨hedge, hm, hk⟩) hkplaced
  exact ⟨List.idxOf_lt_length_iff.1 (hlt.trans (List.idxOf_lt_length_iff.2 hkplaced)), hlt⟩

end

/-! ### The report of a phase -/

section

variable {β : Type} {links : List (Link β)} {first last : Option Nat} {stuck : List Nat}

/-- The handlers at the inner positions are the inner handlers, in the order of registration. -/
theorem filterMap_innerIndices (links : List (Link β)) :
    (innerIndices links).filterMap (fun i => links[i]?) = links.filter Link.isInner := by
  calc (innerIndices links).filterMap (fun i => links[i]?)
      = (List.range links.length).filterMap fun i => links[i]?.filter Link.isInner := by
        rw [innerIndices, List.filterMap_filter]
        apply List.filterMap_congr
        intro i _
        rcases links[i]? with - | a
        · simp
        · rcases ha : a.isInner
          · simp [Option.filter, ha]
          · simp [Option.filter, ha]
    _ = ((List.range links.length).filterMap fun i => links[i]?).filter Link.isInner := by
        rw [List.filter_filterMap]
    _ = links.filter Link.isInner := by rw [filterMap_range]

/-- Names by position are the names of the handlers there. -/
theorem map_nameAt (h : ∀ i ∈ stuck, i < links.length) :
    stuck.map (nameAt links) = (stuck.filterMap fun i => links[i]?).map Link.name := by
  rw [List.map_filterMap]
  have hnames : ∀ i ∈ stuck, some (nameAt links i) = links[i]?.map Link.name := by
    intro i hi
    rw [nameAt, List.getElem?_eq_getElem (h i hi)]
    rfl
  rw [← List.filterMap_congr hnames, List.filterMap_eq_map']

/-- Handlers that stand for the circles of a phase. -/
structure ReportsCycles (links reported : List (Link β)) : Prop where
  /-- They are handlers that claim neither end, in the order of registration. -/
  inner : reported.Sublist (links.filter Link.isInner)
  /-- They are exactly those on or behind a circle of such handlers. -/
  exact : ∀ a, a ∈ reported ↔
    BehindCycle (Among (links.filter Link.isInner) fun a b => a.precedes b = true) a
  /-- There is a whole circle among them. -/
  circle : ∃ a, Relation.TransGen (Among reported fun a b => a.precedes b = true) a a

theorem ReportsCycles.ne_nil {reported : List (Link β)} (h : ReportsCycles links reported) :
    reported ≠ [] := by
  obtain ⟨a, hcycle⟩ := h.circle
  obtain ⟨b, ⟨ha, -⟩, -⟩ := Relation.TransGen.head'_iff.1 hcycle
  exact List.ne_nil_of_mem ha

/-- **What the sorting of a phase leaves over** are the handlers on or behind a circle. -/
theorem Ends.reportsCycles (h : Ends links first last) (hn : (links.map Link.name).Nodup)
    (hstuck : topologicalOrder (innerPositions links first last) (precedences links) =
      .error stuck) : ReportsCycles links (stuck.filterMap fun i => links[i]?) := by
  obtain ⟨hne, hwait⟩ := h.wait_of_stuck hstuck
  refine ⟨?_, fun a => ⟨fun ha => ?_, fun hbehind => ?_⟩, ?_⟩
  · rw [← filterMap_innerIndices, ← h.innerPositions_eq,
      stuck_eq_of_topologicalOrder_error hstuck]
    exact List.filter_sublist.filterMap _
  · have hbehind := behindCycle_of_forall (r := fun a b => a.precedes b = true)
      (fun b hb => (hwait b hb).2) ha
    apply hbehind.mono
    rintro b c ⟨hb, hc, hbc⟩
    exact ⟨(hwait b hb).1, (hwait c hc).1, hbc⟩
  · -- the circle is one of positions, and so what it leads to is left over
    have hposition : positionOf links a ∈ stuck := by
      apply mem_stuck_of_behindCycle (nodup_innerPositions links first last) hstuck
      apply hbehind.lift (positionOf links)
      rintro b c ⟨hb, hc, hbc⟩
      obtain ⟨hgetb, hposb⟩ := h.position_of_inner hn hb
      obtain ⟨hgetc, hposc⟩ := h.position_of_inner hn hc
      exact ⟨hposb, hposc, mem_precedences.2 ⟨b, c, hgetb, hgetc, hbc⟩⟩
    obtain ⟨hget, -⟩ := h.position_of_inner hn hbehind.mem
    exact List.mem_filterMap.2 ⟨_, hposition, hget⟩
  · obtain ⟨a, -, hcycle⟩ :=
      exists_cycle (r := fun a b => a.precedes b = true) hne fun b hb => (hwait b hb).2
    exact ⟨a, hcycle⟩

/-- What is in the way of an end is no circle. -/
theorem outerConflict?_ne_cycle (names : List String) :
    outerConflict? links first last ≠ some (.cycle names) := by
  rw [outerConflict?]
  split
  · simp
  · intro h
    obtain ⟨_, -, hcycle⟩ := Option.map_eq_some_iff.1 h
    cases hcycle

theorem orderPhase_cycle {phase : String} {names : List String}
    (hn : (links.map Link.name).Nodup)
    (h : orderPhase phase links = .error (.phaseConflict phase (.cycle names))) :
    ∃ reported, names = reported.map Link.name ∧ ReportsCycles links reported := by
  rw [orderPhase] at h
  cases hpositions : orderPositions links with
  | ok positions =>
    rw [hpositions] at h
    cases h
  | error conflict =>
    rw [hpositions] at h
    cases h
    have hcourse := course_orderPositions links
    rw [hpositions] at hcourse
    cases hcourse with
    | obstructed _ _ conflicts => exact absurd conflicts (outerConflict?_ne_cycle names)
    | stuck ends _ _ fails =>
      refine ⟨_, map_nameAt fun i hi => ?_, ends.reportsCycles hn fails⟩
      have hinner := (topologicalOrder_error (nodup_innerPositions _ _ _) fails).2.1 hi
      exact (mem_innerPositions.1 hinner).1

/-! ### The report of a resolution -/

/-- A conflict told of a phase is that of all its handlers. -/
theorem orderPhase_of_fillPhases_error {seen declared : List String} {phase : String}
    {conflict : Conflict}
    (h : fillPhases links seen declared = .error (.phaseConflict phase conflict)) :
    orderPhase phase (inPhase phase links) = .error (.phaseConflict phase conflict) := by
  induction declared generalizing seen with
  | nil => cases h
  | cons name rest ih =>
    rcases fillPhases_cons_error h with hfault | ⟨-, hrest⟩
    · have hname : name = phase := by
        obtain ⟨_, heq⟩ := orderPhase_error hfault
        cases heq
        rfl
      subst hname
      by_cases hseen : name ∈ seen
      · rw [bucket, if_pos hseen] at hfault
        cases hfault
      · rwa [bucket, if_neg hseen] at hfault
    · exact ih hrest

theorem orderPhase_of_resolve_error {order : PhaseOrder} {flow : Flow} {phase : String}
    {conflict : Conflict}
    (h : resolve order flow links = .error (.phaseConflict phase conflict)) :
    (links.map Link.name).Nodup ∧
      orderPhase phase (inPhase phase links) = .error (.phaseConflict phase conflict) := by
  simp only [resolve, bind, Except.bind] at h
  split at h
  · rename_i error hcheck
    cases h
    obtain ⟨_, _, _, -, -, hfault⟩ := checkContributions_error hcheck
    simp at hfault
  · rename_i hcheck
    split at h
    · rename_i error hfill
      cases h
      exact ⟨(checkContributions_ok_iff.1 hcheck).1.distinct, orderPhase_of_fillPhases_error hfill⟩
    · cases h

end

variable {β : Type} {order : PhaseOrder} {flow : Flow} {links : List (Link β)} {phase : String}
  {names : List String}

/-- **A circle is reported exactly**: the handlers that an error lists are, in the order of
    registration and each once, those of the phase that claim no end and lie on or behind a
    circle of such; there is one of them at least, and a whole circle is among them. -/
theorem resolve_reports_cycle
    (h : resolve order flow links = .error (.phaseConflict phase (.cycle names))) :
    ∃ reported, names = reported.map Link.name ∧ names.Nodup ∧ reported ≠ [] ∧
      ReportsCycles (inPhase phase links) reported := by
  obtain ⟨hnodup, horder⟩ := orderPhase_of_resolve_error h
  have hn : ((inPhase phase links).map Link.name).Nodup :=
    hnodup.sublist (List.filter_sublist.map _)
  obtain ⟨reported, rfl, hreports⟩ := orderPhase_cycle hn horder
  exact ⟨reported, rfl, hn.sublist ((hreports.inner.trans List.filter_sublist).map _),
    hreports.ne_nil, hreports⟩

/-- A circle of two with a handler behind it, and one before it that is not reported. -/
theorem resolve_reports_cycle_of_two :
    let links : List (Link Unit) := [
      ⟨{ name := "behind", phase := "A", after := .ofList ["left"] }, ()⟩,
      ⟨{ name := "right", phase := "A", before := .ofList ["left"] }, ()⟩,
      ⟨{ name := "head", phase := "A", first := true }, ()⟩,
      ⟨{ name := "elsewhere", phase := "B" }, ()⟩,
      ⟨{ name := "ahead", phase := "A", before := .ofList ["right"] }, ()⟩,
      ⟨{ name := "left", phase := "A", before := .ofList ["right"] }, ()⟩]
    resolve (.uniform ["B", "A"]) .inbound links =
        .error (.phaseConflict "A" (.cycle ["behind", "right", "left"])) ∧
      ∃ reported, ["behind", "right", "left"] = reported.map Link.name ∧
        ["behind", "right", "left"].Nodup ∧ reported ≠ [] ∧
        ReportsCycles (inPhase "A" links) reported := by
  intro links
  have h : resolve (.uniform ["B", "A"]) .inbound links =
      .error (.phaseConflict "A" (.cycle ["behind", "right", "left"])) := by
    decide +kernel
  exact ⟨h, resolve_reports_cycle h⟩

end ExchangePipeline
