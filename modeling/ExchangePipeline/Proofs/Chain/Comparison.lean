/-
  ExchangePipeline/Proofs/Chain/Comparison.lean
  =============================================
  **Two resolutions side by side.**

  Resolution is a function of all contributions, but each phase of the chain
  depends on much less: on the handlers of that phase, in their order of
  registration, and on what they ask of each other.

  The main statements: what fits together fits without some of its members and in
  any other order, and the phases of the chain then hold what is left of them
  (`resolve_hereditary`); and a phase whose handlers agree in two resolutions has
  the same order in both, whatever else the two resolutions are about
  (`resolve_phase_independent`).
-/
import Mathlib.Data.List.Forall2
import ExchangePipeline.Proofs.Chain.Resolution

namespace ExchangePipeline

variable {β γ : Type}

/-! ### Chains related phase by phase -/

/-- Two chains of one flow with the same phases, whose handlers are related phase by phase. -/
structure Chain.PhaseByPhase (r : List (Link β) → List (Link β) → Prop)
    (chain other : Chain β) : Prop where
  flow_eq : chain.flow = other.flow
  phases : List.Forall₂ (fun p q => p.name = q.name ∧ r p.links q.links) chain.phases other.phases

variable {r : List (Link β) → List (Link β) → Prop} {links others : List (Link β)}

/-- What is registered for a phase decides, up to order, what the phase is filled with. -/
theorem fillPhases_phaseByPhase
    (hr : ∀ seen name p q, p.Perm (bucket links seen name) → q.Perm (bucket others seen name) →
      r p q)
    {seen declared : List String} {phases phases' : List (Phase β)}
    (h : fillPhases links seen declared = .ok phases)
    (h' : fillPhases others seen declared = .ok phases') :
    List.Forall₂ (fun p q => p.name = q.name ∧ r p.links q.links) phases phases' := by
  induction declared generalizing seen phases phases' with
  | nil =>
    cases h
    cases h'
    exact .nil
  | cons name rest ih =>
    obtain ⟨ordered, tail, hordered, htail, rfl⟩ := fillPhases_cons_ok h
    obtain ⟨ordered', tail', hordered', htail', rfl⟩ := fillPhases_cons_ok h'
    have hrelated : r ordered ordered' :=
      hr seen name _ _ (orderPhase_inOrder hordered).perm (orderPhase_inOrder hordered').perm
    exact .cons ⟨rfl, hrelated⟩ (ih htail htail')

theorem bucket_subperm {fewer : List (Link β)} (h : fewer.Subperm links) (seen : List String)
    (name : String) : (bucket fewer seen name).Subperm (bucket links seen name) := by
  unfold bucket
  split
  · exact List.Subperm.refl []
  · exact h.filter _

theorem bucket_perm (h : links.Perm others) (seen : List String) (name : String) :
    (bucket links seen name).Perm (bucket others seen name) := by
  unfold bucket
  split
  · exact List.Perm.refl []
  · exact h.filter _

variable {order : PhaseOrder} {flow : Flow} {chain other : Chain β}

theorem resolve_phaseByPhase (h : resolve order flow links = .ok chain)
    (h' : resolve order flow others = .ok other)
    (hr : ∀ seen name p q, p.Perm (bucket links seen name) → q.Perm (bucket others seen name) →
      r p q) : chain.PhaseByPhase r other := by
  obtain ⟨-, phases, hphases, rfl⟩ := resolve_ok h
  obtain ⟨-, phases', hphases', rfl⟩ := resolve_ok h'
  exact ⟨rfl, fillPhases_phaseByPhase hr hphases hphases'⟩

/-- The same contributions in another order fill every phase with the same handlers. -/
theorem resolve_perm (h : resolve order flow links = .ok chain) (hperm : others.Perm links) :
    ∃ other, resolve order flow others = .ok other ∧ other.PhaseByPhase List.Perm chain := by
  have hfit : Resolvable order flow links := exists_resolve_iff.1 ⟨chain, h⟩
  obtain ⟨other, hother⟩ := exists_resolve_iff.2 (hfit.of_subperm hperm.subperm)
  refine ⟨other, hother, resolve_phaseByPhase hother h fun seen name p q hp hq => ?_⟩
  exact (hp.trans (bucket_perm hperm seen name)).trans hq.symm

/-- **What fits together fits without some of its members, in any order**, and every phase of the
    chain holds what is left of its handlers. -/
theorem resolve_hereditary (h : resolve order flow links = .ok chain) {fewer : List (Link β)}
    (hsub : fewer.Subperm links) :
    ∃ rest, resolve order flow fewer = .ok rest ∧ rest.links.Perm fewer ∧
      rest.PhaseByPhase List.Subperm chain := by
  have hfit : Resolvable order flow links := exists_resolve_iff.1 ⟨chain, h⟩
  obtain ⟨rest, hrest⟩ := exists_resolve_iff.2 (hfit.of_subperm hsub)
  refine ⟨rest, hrest, perm_of_resolve hrest, ?_⟩
  refine resolve_phaseByPhase hrest h fun seen name p q hp hq => ?_
  exact (hp.subperm.trans (bucket_subperm hsub seen name)).trans hq.symm.subperm

/-- A resolution, as far as it can be checked. -/
theorem exists_resolved {names : List String}
    (h : (resolve order flow links).toOption.map Chain.handlerNames = some names) :
    ∃ chain, resolve order flow links = .ok chain ∧ chain.handlerNames = names := by
  cases hr : resolve order flow links with
  | error error =>
    rw [hr] at h
    cases h
  | ok chain =>
    rw [hr] at h
    exact ⟨chain, rfl, Option.some.inj h⟩

/-- Handlers of two phases with claims at their ends and a constraint. -/
def mingled : List (Link Unit) := [
  ⟨{ name := "a", phase := "A", last := true }, ()⟩,
  ⟨{ name := "c", phase := "A" }, ()⟩,
  ⟨{ name := "b", phase := "A", before := .ofList ["c"] }, ()⟩,
  ⟨{ name := "d", phase := "B", first := true }, ()⟩]

/-- The mingled handlers the other way round, without the one that the constraint names. -/
theorem resolve_hereditary_mingled :
    ∃ chain rest, resolve (.uniform ["A", "B"]) .outbound mingled = .ok chain ∧
      chain.handlerNames = ["b", "c", "a", "d"] ∧
      resolve (.uniform ["A", "B"]) .outbound (mingled.reverse.eraseIdx 2) = .ok rest ∧
      (rest.links.map Link.name).Perm ["d", "b", "a"] ∧ rest.PhaseByPhase List.Subperm chain := by
  have hsub : (mingled.reverse.eraseIdx 2).Subperm mingled :=
    (List.eraseIdx_sublist _ 2).subperm.trans (List.reverse_perm mingled).subperm
  obtain ⟨chain, hchain, hnames⟩ : ∃ chain,
      resolve (.uniform ["A", "B"]) .outbound mingled = .ok chain ∧
        chain.handlerNames = ["b", "c", "a", "d"] := exists_resolved (by decide +kernel)
  obtain ⟨rest, hrest, hperm, hphases⟩ := resolve_hereditary hchain hsub
  exact ⟨chain, rest, hchain, hnames, hrest, hperm.map Link.name, hphases⟩

/-! ### Handlers that agree in what they ask of each other -/

/-- Two placements that ask for the same, as far as handlers of the given names are concerned. -/
structure Placement.AgreesAmong (names : List String) (p q : Placement) : Prop where
  name : p.name = q.name
  first : p.first = q.first
  last : p.last = q.last
  before : ∀ n ∈ names, n ∈ p.before ↔ n ∈ q.before
  after : ∀ n ∈ names, n ∈ p.after ↔ n ∈ q.after

/-- Handlers that agree one by one in what they ask of each other. -/
def AgreeInTurn (links : List (Link β)) (others : List (Link γ)) : Prop :=
  List.Forall₂ (fun a b => a.placement.AgreesAmong (links.map Link.name) b.placement) links others

section Agreement

variable {links : List (Link β)} {others : List (Link γ)}

theorem AgreeInTurn.names_eq (h : AgreeInTurn links others) :
    links.map Link.name = others.map Link.name := by
  have hnames : List.Forall₂ (· = ·) (links.map Link.name) (others.map Link.name) :=
    List.rel_map (fun _ _ hab => hab.name) h
  rwa [List.forall₂_eq_eq_eq] at hnames

theorem AgreeInTurn.length_eq (h : AgreeInTurn links others) : links.length = others.length :=
  List.Forall₂.length_eq h

theorem AgreeInTurn.nameAt_eq (h : AgreeInTurn links others) : nameAt links = nameAt others := by
  funext position
  rw [nameAt, nameAt, ← List.getElem?_map, ← List.getElem?_map, h.names_eq]

/-- Numbering keeps a relation item by item, and gives related items the same numbers. -/
theorem forall₂_zipIdx {r : Link β → Link γ → Prop} {l : List (Link β)} {l' : List (Link γ)}
    (h : List.Forall₂ r l l') (start : Nat) :
    List.Forall₂ (fun a b => r a.1 b.1 ∧ a.2 = b.2) (l.zipIdx start) (l'.zipIdx start) := by
  induction h generalizing start with
  | nil => exact .nil
  | cons hab _ ih => exact .cons ⟨hab, rfl⟩ (ih (start + 1))

/-- Agreeing handlers stand in the same constraints. -/
theorem precedes_congr {names : List String} {a b : Link β} {a' b' : Link γ}
    (ha : a.placement.AgreesAmong names a'.placement)
    (hb : b.placement.AgreesAmong names b'.placement) (hma : a.name ∈ names)
    (hmb : b.name ∈ names) : a.precedes b = a'.precedes b' := by
  have hname : a.name = a'.name := ha.name
  have hname' : b.name = b'.name := hb.name
  rw [Link.precedes, Link.precedes, ← hname, ← hname', decide_eq_decide.2 (ha.before _ hmb),
    decide_eq_decide.2 (hb.after _ hma)]

theorem AgreeInTurn.precedences_eq (h : AgreeInTurn links others) :
    precedences links = precedences others := by
  -- the handlers are numbered, and each is known to be one whose name the constraints may hold
  have hmembers : List.Forall₂ (fun a b => a.name ∈ links.map Link.name ∧
      a.placement.AgreesAmong (links.map Link.name) b.placement) links others :=
    (List.forall₂_and_left _ _).2 ⟨fun a ha => List.mem_map_of_mem ha, h⟩
  have hnumbered := forall₂_zipIdx hmembers 0
  have hpairs : List.Forall₂ (· = ·) (precedences links) (precedences others) := by
    refine List.rel_flatMap hnumbered ?_
    rintro ⟨a, i⟩ ⟨a', i'⟩ ⟨⟨hma, ha⟩, rfl : i = i'⟩
    refine List.rel_map ?_ (List.rel_filter ?_ hnumbered)
    · rintro b b' ⟨-, hj⟩
      exact Prod.ext rfl hj
    · rintro b b' ⟨⟨hmb, hb⟩, -⟩
      exact Bool.eq_iff_iff.1 (precedes_congr ha hb hma hmb)
  rwa [List.forall₂_eq_eq_eq] at hpairs

theorem AgreeInTurn.soleClaimant_eq (h : AgreeInTurn links others) {claims : Link β → Bool}
    {claims' : Link γ → Bool}
    (hclaims : ∀ (a : Link β) (b : Link γ),
      a.placement.AgreesAmong (links.map Link.name) b.placement → claims a = claims' b) :
    soleClaimant claims links = soleClaimant claims' others := by
  have hclaimants := List.rel_filter (p := fun entry => claims entry.1)
    (q := fun entry => claims' entry.1)
    (fun a b hab => Bool.eq_iff_iff.1 (hclaims a.1 b.1 hab.1)) (forall₂_zipIdx h 0)
  unfold soleClaimant
  revert hclaimants
  generalize links.zipIdx.filter (fun entry => claims entry.1) = found
  generalize others.zipIdx.filter (fun entry => claims' entry.1) = found'
  intro hclaimants
  cases hclaimants with
  | nil => rfl
  | @cons one one' _ _ hone hmore =>
    have hname : one.1.name = one'.1.name := hone.1.name
    cases hmore with
    | nil => simp only [hone.2]
    | @cons other other' _ _ hother _ =>
      have hname' : other.1.name = other'.1.name := hother.1.name
      simp only [hname, hname']

/-- Agreeing handlers are put in the same order, or stand in the same conflict. -/
theorem AgreeInTurn.orderPositions_eq (h : AgreeInTurn links others) :
    orderPositions links = orderPositions others := by
  have hfirst : soleClaimant (fun link => link.placement.first) links =
      soleClaimant (fun link => link.placement.first) others :=
    h.soleClaimant_eq fun _ _ hab => hab.first
  have hlast : soleClaimant (fun link => link.placement.last) links =
      soleClaimant (fun link => link.placement.last) others :=
    h.soleClaimant_eq fun _ _ hab => hab.last
  simp only [orderPositions, outerConflict?, innerPositions, hfirst, hlast, h.length_eq,
    h.nameAt_eq, h.precedences_eq]

end Agreement

/-! ### One phase in two chains -/

/-- The first phase of a name. -/
def Chain.phase? (chain : Chain β) (name : String) : Option (Phase β) :=
  chain.phases.find? fun phase => phase.name = name

/-- The first phase of a name holds all handlers that name it, in their order. -/
theorem find?_fillPhases {links : List (Link β)} {seen declared : List String} {name : String}
    {phases : List (Phase β)} (h : fillPhases links seen declared = .ok phases)
    (hname : name ∈ declared) (hseen : name ∉ seen) :
    ∃ ordered, orderPhase name (inPhase name links) = .ok ordered ∧
      (phases.find? fun phase => phase.name = name) = some ⟨name, ordered⟩ := by
  induction declared generalizing seen phases with
  | nil => cases hname
  | cons other rest ih =>
    obtain ⟨ordered, tail, hordered, htail, rfl⟩ := fillPhases_cons_ok h
    by_cases hother : other = name
    · subst hother
      rw [bucket, if_neg hseen] at hordered
      exact ⟨ordered, hordered, by simp⟩
    · have hrest : name ∈ rest := (List.mem_cons.1 hname).resolve_left (Ne.symm hother)
      have hfresh : name ∉ other :: seen := by simp [Ne.symm hother, hseen]
      obtain ⟨found, hfound, hfind⟩ := ih htail hrest hfresh
      exact ⟨found, hfound, by simpa [hother] using hfind⟩

theorem phase?_of_resolve {name : String} (h : resolve order flow links = .ok chain)
    (hname : name ∈ order.phases flow) :
    ∃ ordered, orderPhase name (inPhase name links) = .ok ordered ∧
      chain.phase? name = some ⟨name, ordered⟩ := by
  obtain ⟨-, phases, hphases, rfl⟩ := resolve_ok h
  exact find?_fillPhases hphases hname List.not_mem_nil

theorem orderPhase_ok {name : String} {ordered : List (Link β)}
    (h : orderPhase name links = .ok ordered) :
    ∃ positions, orderPositions links = .ok positions ∧
      ordered = positions.filterMap fun i => links[i]? := by
  unfold orderPhase at h
  split at h
  · rename_i positions hpositions
    cases h
    exact ⟨positions, hpositions, rfl⟩
  · cases h

/-- **A phase depends on its own handlers alone.**  Of two resolutions whose handlers of one phase
    agree in turn, both put these handlers in the same order, whatever the flows, the declared
    phases, the other handlers and the places of these among the contributions are. -/
theorem resolve_phase_independent {order order' : PhaseOrder} {flow flow' : Flow}
    {links : List (Link β)} {others : List (Link γ)} {chain : Chain β} {other : Chain γ}
    {name : String} (h : resolve order flow links = .ok chain)
    (h' : resolve order' flow' others = .ok other) (hname : name ∈ order.phases flow)
    (hname' : name ∈ order'.phases flow')
    (hagree : AgreeInTurn (inPhase name links) (inPhase name others)) :
    ∃ (phase : Phase β) (phase' : Phase γ) (positions : List Nat),
      chain.phase? name = some phase ∧ other.phase? name = some phase' ∧
      positions.Perm (List.range (inPhase name links).length) ∧
      phase.links = positions.filterMap (fun i => (inPhase name links)[i]?) ∧
      phase'.links = positions.filterMap (fun i => (inPhase name others)[i]?) ∧
      phase.handlerNames = phase'.handlerNames := by
  obtain ⟨ordered, hordered, hphase⟩ := phase?_of_resolve h hname
  obtain ⟨ordered', hordered', hphase'⟩ := phase?_of_resolve h' hname'
  obtain ⟨positions, hpositions, rfl⟩ := orderPhase_ok hordered
  obtain ⟨positions', hpositions', rfl⟩ := orderPhase_ok hordered'
  obtain rfl : positions = positions' := by
    rw [hagree.orderPositions_eq, hpositions'] at hpositions
    exact (Except.ok.inj hpositions).symm
  refine ⟨_, _, positions, hphase, hphase', (orderPositions_inOrder hpositions).perm, rfl, rfl, ?_⟩
  have hnames : ∀ i : Nat, ((inPhase name links)[i]?.map Link.name) =
      ((inPhase name others)[i]?.map Link.name) := by
    intro i
    rw [← List.getElem?_map, ← List.getElem?_map, hagree.names_eq]
  simp only [Phase.handlerNames, List.map_filterMap, hnames]

/-- One phase among others of another flow, the handlers registered in between those of other
    phases, with constraints on handlers that are not in the phase. -/
theorem resolve_phase_independent_of_interleaved :
    let links : List (Link Unit) := [
      ⟨{ name := "x", phase := "P" }, ()⟩,
      ⟨{ name := "y", phase := "P", before := .ofList ["x"] }, ()⟩]
    let others : List (Link Nat) := [
      ⟨{ name := "z", phase := "Q", after := .ofList ["x"] }, 1⟩,
      ⟨{ name := "x", phase := "P", before := .ofList ["z"] }, 2⟩,
      ⟨{ name := "w", phase := "Q", before := .ofList ["y", "z"] }, 3⟩,
      ⟨{ name := "y", phase := "P", before := .ofList ["x"], after := .ofList ["z"] }, 4⟩]
    ∃ chain other phase phase', resolve (.uniform ["P"]) .inbound links = .ok chain ∧
      resolve (.uniform ["Q", "P", "Q"]) .outFault others = .ok other ∧
      chain.phase? "P" = some phase ∧ other.phase? "P" = some phase' ∧
      phase.handlerNames = phase'.handlerNames := by
  intro links others
  have hagree : AgreeInTurn (inPhase "P" links) (inPhase "P" others) := by
    refine .cons ⟨rfl, rfl, rfl, ?_, ?_⟩ (.cons ⟨rfl, rfl, rfl, ?_, ?_⟩ .nil)
    all_goals decide
  obtain ⟨chain, hchain, -⟩ : ∃ chain, resolve (.uniform ["P"]) .inbound links = .ok chain ∧
      chain.handlerNames = ["y", "x"] := exists_resolved (by decide +kernel)
  obtain ⟨other, hother, -⟩ : ∃ other,
      resolve (.uniform ["Q", "P", "Q"]) .outFault others = .ok other ∧
        other.handlerNames = ["w", "z", "y", "x"] := exists_resolved (by decide +kernel)
  obtain ⟨phase, phase', -, hphase, hphase', -, -, -, hnames⟩ :=
    resolve_phase_independent hchain hother (by decide) (by decide) hagree
  exact ⟨chain, other, phase, phase', hchain, hother, hphase, hphase', hnames⟩

end ExchangePipeline
