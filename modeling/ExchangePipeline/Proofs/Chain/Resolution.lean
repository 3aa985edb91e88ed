/-
  ExchangePipeline/Proofs/Chain/Resolution.lean
  =============================================
  **Resolution decides whether contributions fit together, and arranges them.**

  `Resolvable` says when contributions fit: their phases are declared, their
  names differ, and the handlers of every declared phase are orderable.  None of
  this depends on the order of registration, so fewer contributions, in any
  order, fit as well (`Resolvable.of_subperm`).

  The main statements: a resolution succeeds exactly for resolvable contributions
  and otherwise tells the first fault (`resolve_decides`), and a chain that comes
  out arranges all contributions as they ask for (`resolve_arranges`).
-/
import ExchangePipeline.Proofs.Chain.OnePhase

namespace ExchangePipeline

variable {β : Type}

/-! ### What contributions ask for, and what a chain grants -/

/-- The handlers of a phase, in registration order. -/
def inPhase (name : String) (links : List (Link β)) : List (Link β) :=
  links.filter fun link => link.phase = name

/-- Every phase that is named is declared, and no name comes twice. -/
structure Acceptable (declared : List String) (links : List (Link β)) : Prop where
  declared : ∀ a ∈ links, a.phase ∈ declared
  distinct : (links.map Link.name).Nodup

/-- Contributions that fit together in the chain of a flow. -/
structure Resolvable (order : PhaseOrder) (flow : Flow) (links : List (Link β)) : Prop
    extends Acceptable (order.phases flow) links where
  orderable : ∀ name ∈ order.phases flow, Orderable (inPhase name links)

/-- An error that tells the first fault of contributions: the earliest contribution that cannot be
    accepted, or else the earliest declared phase whose handlers cannot be put in order. -/
inductive FirstFault (order : PhaseOrder) (flow : Flow) (links : List (Link β)) :
    ConfigError → Prop where
  | undeclared (earlier : List (Link β)) (a : Link β) (later : List (Link β))
      (split : links = earlier ++ a :: later)
      (accepted : Acceptable (order.phases flow) earlier)
      (fault : a.phase ∉ order.phases flow) :
      FirstFault order flow links (.unknownPhase a.phase a.name flow)
  | repeated (earlier : List (Link β)) (a : Link β) (later : List (Link β))
      (split : links = earlier ++ a :: later)
      (accepted : Acceptable (order.phases flow) earlier)
      (declared : a.phase ∈ order.phases flow)
      (fault : a.name ∈ earlier.map Link.name) :
      FirstFault order flow links (.duplicateHandler a.phase a.name)
  | unorderable (earlier : List String) (name : String) (later : List String)
      (split : order.phases flow = earlier ++ name :: later)
      (accepted : Acceptable (order.phases flow) links)
      (orderable : ∀ phase ∈ earlier, Orderable (inPhase phase links))
      (fault : ¬ Orderable (inPhase name links)) (conflict : Conflict) :
      FirstFault order flow links (.phaseConflict name conflict)

/-- A chain that holds contributions in an order that grants everything they ask for. -/
structure Chain.Arranges (chain : Chain β) (order : PhaseOrder) (flow : Flow)
    (links : List (Link β)) : Prop where
  flow_eq : chain.flow = flow
  /-- The phases are the declared ones, in declared order. -/
  names : chain.phases.map Phase.name = order.phases flow
  /-- The chain runs through its phases one after the other. -/
  links_eq : chain.links = (chain.phases.map Phase.links).flatten
  /-- Nothing is lost, and nothing comes twice. -/
  perm : chain.links.Perm links
  /-- A handler stands in the first phase of the name it gives; repeats of that phase are empty. -/
  home : ∀ a ∈ links, ∃ earlier phase later, chain.phases = earlier ++ phase :: later ∧
    (∀ p ∈ earlier, p.name ≠ a.phase) ∧ phase.name = a.phase ∧ a ∈ phase.links ∧
    ∀ p ∈ later, p.name = a.phase → p.links = []
  /-- Phases hold handlers of their own name only. -/
  own : ∀ phase ∈ chain.phases, ∀ a ∈ phase.links, a.phase = phase.name
  first : ∀ phase ∈ chain.phases, ∀ a ∈ phase.links, a.placement.first = true →
    phase.links.head? = some a
  last : ∀ phase ∈ chain.phases, ∀ a ∈ phase.links, a.placement.last = true →
    phase.links.getLast? = some a
  /-- Constraints between handlers of a phase hold for their positions in the chain. -/
  respects : ∀ (i j : Nat) (a b : Link β), chain.links[i]? = some a → chain.links[j]? = some b → i ≠ j →
    a.phase = b.phase → (b.name ∈ a.placement.before ∨ a.name ∈ b.placement.after) → i < j

theorem Link.precedes_iff {a b : Link β} :
    a.precedes b = true ↔ b.name ∈ a.placement.before ∨ a.name ∈ b.placement.after := by
  simp [Link.precedes]

/-! ### Accepting contributions -/

theorem Acceptable.nil (declared : List String) : Acceptable declared ([] : List (Link β)) :=
  ⟨by simp, by simp⟩

theorem acceptable_cons {declared : List String} {a : Link β} {rest : List (Link β)} :
    Acceptable declared (a :: rest) ↔
      a.phase ∈ declared ∧ Acceptable declared rest ∧ a.name ∉ rest.map Link.name := by
  constructor
  · rintro ⟨hphase, hname⟩
    obtain ⟨hnew, hrest⟩ := List.nodup_cons.1 hname
    exact ⟨hphase a List.mem_cons_self, ⟨fun b hb => hphase b (List.mem_cons_of_mem _ hb), hrest⟩,
      hnew⟩
  · rintro ⟨hphase, hrest, hnew⟩
    refine ⟨?_, List.nodup_cons.2 ⟨hnew, hrest.distinct⟩⟩
    intro b hb
    rcases List.mem_cons.1 hb with rfl | hb
    · exact hphase
    · exact hrest.declared b hb

/-- The check succeeds for acceptable contributions with new names. -/
theorem checkContributions_ok_iff {flow : Flow} {declared seen : List String}
    {links : List (Link β)} :
    checkContributions flow declared seen links = .ok () ↔
      Acceptable declared links ∧ ∀ a ∈ links, a.name ∉ seen := by
  induction links generalizing seen with
  | nil => simp [checkContributions, Acceptable.nil]
  | cons a rest ih =>
    rw [checkContributions, acceptable_cons]
    by_cases hphase : a.phase ∈ declared
    · by_cases hseen : a.name ∈ seen
      · simp [hphase, hseen]
      · simp only [hphase, hseen, not_true_eq_false, if_false, ih, List.mem_cons, not_or,
          true_and, forall_eq_or_imp, not_false_eq_true, List.mem_map, not_exists, not_and]
        constructor
        · rintro ⟨hrest, hnew⟩
          exact ⟨⟨hrest, fun b hb => (hnew b hb).1⟩, fun b hb => (hnew b hb).2⟩
        · rintro ⟨⟨hrest, hnew⟩, hold⟩
          exact ⟨hrest, fun b hb => ⟨hnew b hb, hold b hb⟩⟩
    · simp [hphase]

/-- The check fails at the earliest contribution that cannot be accepted after those before it. -/
theorem checkContributions_error {flow : Flow} {declared seen : List String}
    {links : List (Link β)} {error : ConfigError}
    (h : checkContributions flow declared seen links = .error error) :
    ∃ earlier a later, links = earlier ++ a :: later ∧
      (Acceptable declared earlier ∧ ∀ b ∈ earlier, b.name ∉ seen) ∧
      ((a.phase ∉ declared ∧ error = .unknownPhase a.phase a.name flow) ∨
        (a.phase ∈ declared ∧ (a.name ∈ seen ∨ a.name ∈ earlier.map Link.name) ∧
          error = .duplicateHandler a.phase a.name)) := by
  induction links generalizing seen with
  | nil => cases h
  | cons a rest ih =>
    rw [checkContributions] at h
    by_cases hphase : a.phase ∈ declared
    · by_cases hseen : a.name ∈ seen
      · simp only [hphase, hseen, not_true_eq_false, if_true, if_false, Except.error.injEq] at h
        exact ⟨[], a, rest, rfl, ⟨Acceptable.nil _, by simp⟩,
          Or.inr ⟨hphase, Or.inl hseen, h.symm⟩⟩
      · simp only [hphase, hseen, not_true_eq_false, if_false] at h
        obtain ⟨earlier, b, later, rfl, ⟨hacc, hnew⟩, hfault⟩ := ih h
        refine ⟨a :: earlier, b, later, rfl, ⟨?_, ?_⟩, ?_⟩
        · refine acceptable_cons.2 ⟨hphase, hacc, ?_⟩
          intro hmem
          obtain ⟨c, hc, hca⟩ := List.mem_map.1 hmem
          exact hnew c hc (hca ▸ List.mem_cons_self)
        · intro c hc
          rcases List.mem_cons.1 hc with rfl | hc
          · exact hseen
          · exact fun hmem => hnew c hc (List.mem_cons_of_mem _ hmem)
        · rcases hfault with hfault | ⟨hdecl, hname, herror⟩
          · exact Or.inl hfault
          · refine Or.inr ⟨hdecl, ?_, herror⟩
            rw [List.map_cons, List.mem_cons]
            rcases hname with hname | hname
            · rcases List.mem_cons.1 hname with hname | hname
              · exact Or.inr (Or.inl hname)
              · exact Or.inl hname
            · exact Or.inr (Or.inr hname)
    · simp only [hphase, not_false_eq_true, if_true, Except.error.injEq] at h
      exact ⟨[], a, rest, rfl, ⟨Acceptable.nil _, by simp⟩, Or.inl ⟨hphase, h.symm⟩⟩

/-! ### Filling the phases -/

/-- What goes to a phase: its handlers, unless the phase was declared before. -/
def bucket (links : List (Link β)) (seen : List String) (name : String) : List (Link β) :=
  if name ∈ seen then [] else inPhase name links

theorem fillPhases_cons_ok {links : List (Link β)} {seen rest : List String} {name : String}
    {phases : List (Phase β)} (h : fillPhases links seen (name :: rest) = .ok phases) :
    ∃ ordered tail, orderPhase name (bucket links seen name) = .ok ordered ∧
      fillPhases links (name :: seen) rest = .ok tail ∧ phases = ⟨name, ordered⟩ :: tail := by
  simp only [fillPhases, bind, Except.bind] at h
  split at h
  · cases h
  · rename_i ordered hordered
    split at h
    · cases h
    · rename_i tail htail
      cases h
      exact ⟨ordered, tail, hordered, htail, rfl⟩

theorem fillPhases_cons_error {links : List (Link β)} {seen rest : List String} {name : String}
    {error : ConfigError} (h : fillPhases links seen (name :: rest) = .error error) :
    orderPhase name (bucket links seen name) = .error error ∨
      ((∃ ordered, orderPhase name (bucket links seen name) = .ok ordered) ∧
        fillPhases links (name :: seen) rest = .error error) := by
  simp only [fillPhases, bind, Except.bind] at h
  split at h
  · rename_i error' herror
    cases h
    exact Or.inl herror
  · rename_i ordered hordered
    split at h
    · rename_i error' herror
      cases h
      exact Or.inr ⟨⟨ordered, hordered⟩, herror⟩
    · cases h

theorem mem_bucket {links : List (Link β)} {seen : List String} {name : String} {a : Link β} :
    a ∈ bucket links seen name ↔ a ∈ links ∧ a.phase = name ∧ a.phase ∉ seen := by
  unfold bucket inPhase
  by_cases h : name ∈ seen
  · simp only [h, if_true, List.not_mem_nil, false_iff]
    rintro ⟨-, rfl, hseen⟩
    exact hseen h
  · simp only [h, if_false, List.mem_filter, decide_eq_true_eq]
    constructor
    · rintro ⟨ha, rfl⟩
      exact ⟨ha, rfl, h⟩
    · rintro ⟨ha, hphase, -⟩
      exact ⟨ha, hphase⟩

/-- The handlers of all phases split into those of the first and those of the others. -/
theorem bucket_append_perm (links : List (Link β)) (seen : List String) (name : String)
    (rest : List String) :
    (bucket links seen name ++ links.filter fun a => a.phase ∈ rest ∧ a.phase ∉ name :: seen).Perm
      (links.filter fun a => a.phase ∈ name :: rest ∧ a.phase ∉ seen) := by
  have hsplit := List.filter_append_perm (fun a : Link β => decide (a.phase = name))
    (links.filter fun a => a.phase ∈ name :: rest ∧ a.phase ∉ seen)
  have hfirst : (links.filter fun a => a.phase ∈ name :: rest ∧ a.phase ∉ seen).filter
      (fun a => decide (a.phase = name)) = bucket links seen name := by
    rw [List.filter_filter, bucket, inPhase]
    by_cases hname : name ∈ seen
    · rw [if_pos hname, List.filter_eq_nil_iff]
      intro a _
      simp only [Bool.and_eq_true, decide_eq_true_eq, not_and]
      rintro rfl - hnot
      exact hnot hname
    · rw [if_neg hname]
      apply List.filter_congr
      intro a _
      by_cases ha : a.phase = name
      · simp [ha, hname]
      · simp [ha]
  have hothers : (links.filter fun a => a.phase ∈ name :: rest ∧ a.phase ∉ seen).filter
      (fun a => !decide (a.phase = name)) =
      links.filter fun a => a.phase ∈ rest ∧ a.phase ∉ name :: seen := by
    rw [List.filter_filter]
    apply List.filter_congr
    intro a _
    by_cases ha : a.phase = name
    · simp [ha]
    · simp [ha]
  rwa [hfirst, hothers] at hsplit

/-- What the phases that are filled hold. -/
structure Filled (links : List (Link β)) (seen declared : List String)
    (phases : List (Phase β)) : Prop where
  names : phases.map Phase.name = declared
  perm : (phases.flatMap Phase.links).Perm
    (links.filter fun a => a.phase ∈ declared ∧ a.phase ∉ seen)
  own : ∀ phase ∈ phases, ∀ a ∈ phase.links, a.phase = phase.name ∧ a.phase ∉ seen
  /-- Of two phases of one name the later one is empty. -/
  once : phases.Pairwise fun p q => p.name = q.name → q.links = []
  inOrder : ∀ phase ∈ phases, InOrder phase.links phase.links

theorem fillPhases_filled {links : List (Link β)} {seen declared : List String}
    {phases : List (Phase β)} (h : fillPhases links seen declared = .ok phases) :
    Filled links seen declared phases := by
  induction declared generalizing seen phases with
  | nil =>
    cases h
    exact ⟨rfl, by simp, by simp, List.Pairwise.nil, by simp⟩
  | cons name rest ih =>
    obtain ⟨ordered, tail, hordered, htail, rfl⟩ := fillPhases_cons_ok h
    have hin := orderPhase_inOrder hordered
    have hfill := ih htail
    have hmem : ∀ a ∈ ordered, a.phase = name ∧ a.phase ∉ seen := fun a ha =>
      (mem_bucket.1 (hin.perm.mem_iff.1 ha)).2
    refine ⟨?_, ?_, ?_, ?_, ?_⟩
    · rw [List.map_cons, hfill.names]
    · exact (hin.perm.append hfill.perm).trans (bucket_append_perm links seen name rest)
    · intro phase hphase a ha
      rcases List.mem_cons.1 hphase with rfl | hphase
      · exact hmem a ha
      · obtain ⟨hown, hnew⟩ := hfill.own phase hphase a ha
        exact ⟨hown, fun hseen => hnew (List.mem_cons_of_mem _ hseen)⟩
    · refine List.pairwise_cons.2 ⟨?_, hfill.once⟩
      intro q hq hname
      apply List.eq_nil_iff_forall_not_mem.2
      intro a ha
      obtain ⟨hown, hnew⟩ := hfill.own q hq a ha
      exact hnew (by rw [hown, ← hname]; exact List.mem_cons_self)
    · intro phase hphase
      rcases List.mem_cons.1 hphase with rfl | hphase
      · exact ⟨List.Perm.refl _, hin.first, hin.last, hin.respects⟩
      · exact hfill.inOrder phase hphase

/-- Along the phases no handler stands behind one of its own phase that it has to precede. -/
theorem Filled.pairwise_links {links : List (Link β)} {seen declared : List String}
    {phases : List (Phase β)} (h : Filled links seen declared phases) :
    (phases.flatMap Phase.links).Pairwise fun a b => a.phase = b.phase → b.precedes a = false := by
  rw [List.pairwise_flatMap]
  constructor
  · intro phase hphase
    apply (h.inOrder phase hphase).respects.imp
    intro a b hab _
    exact hab
  · apply h.once.imp_of_mem
    intro p q hp hq honce a ha b hb hab
    -- the two phases have the same name, so the later one is empty
    have hname := (h.own p hp a ha).1.symm.trans (hab.trans (h.own q hq b hb).1)
    rw [honce hname] at hb
    cases hb

/-- What must not stand behind stands before. -/
theorem lt_of_pairwise {α : Type} {r : α → α → Prop} {l : List α} (h : l.Pairwise r) {i j : Nat}
    {a b : α} (ha : l[i]? = some a) (hb : l[j]? = some b) (hne : i ≠ j) (hr : ¬ r b a) :
    i < j := by
  obtain ⟨hi, rfl⟩ := List.getElem?_eq_some_iff.1 ha
  obtain ⟨hj, rfl⟩ := List.getElem?_eq_some_iff.1 hb
  by_contra hle
  exact hr (List.pairwise_iff_getElem.1 h j i hj hi (by omega))

theorem nodup_bucket {links : List (Link β)} (hn : (links.map Link.name).Nodup)
    (seen : List String) (name : String) : ((bucket links seen name).map Link.name).Nodup := by
  unfold bucket inPhase
  split
  · simp
  · exact hn.sublist (List.filter_sublist.map _)

/-- Declaring an orderable phase again changes nothing. -/
theorem orderable_bucket_cons {links : List (Link β)} {seen : List String} {name : String}
    (h : Orderable (bucket links seen name)) (other : String) :
    Orderable (bucket links (name :: seen) other) ↔ Orderable (bucket links seen other) := by
  by_cases heq : other = name
  · subst heq
    have hnil : bucket links (other :: seen) other = [] := by simp [bucket]
    rw [hnil]
    exact ⟨fun _ => h, fun _ => Orderable.nil⟩
  · have hsame : bucket links (name :: seen) other = bucket links seen other := by
      simp [bucket, heq]
    rw [hsame]

theorem orderable_of_fillPhases_ok {links : List (Link β)} (hn : (links.map Link.name).Nodup)
    {seen declared : List String} {phases : List (Phase β)}
    (h : fillPhases links seen declared = .ok phases) :
    ∀ name ∈ declared, Orderable (bucket links seen name) := by
  induction declared generalizing seen phases with
  | nil => simp
  | cons name rest ih =>
    obtain ⟨ordered, tail, hordered, htail, -⟩ := fillPhases_cons_ok h
    have hname := (exists_orderPhase_iff (nodup_bucket hn seen name)).1 ⟨ordered, hordered⟩
    intro other hother
    rcases List.mem_cons.1 hother with rfl | hother
    · exact hname
    · exact (orderable_bucket_cons hname other).1 (ih htail other hother)

/-- Filling the phases fails at the earliest one whose handlers cannot be put in order. -/
theorem fillPhases_error {links : List (Link β)} (hn : (links.map Link.name).Nodup)
    {seen declared : List String} {error : ConfigError}
    (h : fillPhases links seen declared = .error error) :
    ∃ earlier name later, declared = earlier ++ name :: later ∧
      (∀ phase ∈ earlier, Orderable (bucket links seen phase)) ∧
      ¬ Orderable (bucket links seen name) ∧ ∃ conflict, error = .phaseConflict name conflict := by
  induction declared generalizing seen with
  | nil => cases h
  | cons name rest ih =>
    rcases fillPhases_cons_error h with hfault | ⟨hordered, hrest⟩
    · refine ⟨[], name, rest, rfl, by simp, ?_, orderPhase_error hfault⟩
      intro hname
      obtain ⟨ordered, hok⟩ := (exists_orderPhase_iff (nodup_bucket hn seen name)).2 hname
      rw [hok] at hfault
      cases hfault
    · have hname := (exists_orderPhase_iff (nodup_bucket hn seen name)).1 hordered
      obtain ⟨earlier, other, later, rfl, hearlier, hother, hconflict⟩ := ih hrest
      refine ⟨name :: earlier, other, later, rfl, ?_, ?_, hconflict⟩
      · intro phase hphase
        rcases List.mem_cons.1 hphase with rfl | hphase
        · exact hname
        · exact (orderable_bucket_cons hname phase).1 (hearlier phase hphase)
      · rwa [orderable_bucket_cons hname] at hother

/-! ### The whole resolution -/

theorem bucket_nil (links : List (Link β)) (name : String) :
    bucket links [] name = inPhase name links := by
  simp [bucket]

theorem resolve_ok {order : PhaseOrder} {flow : Flow} {links : List (Link β)} {chain : Chain β}
    (h : resolve order flow links = .ok chain) :
    Acceptable (order.phases flow) links ∧
      ∃ phases, fillPhases links [] (order.phases flow) = .ok phases ∧ chain = ⟨flow, phases⟩ := by
  simp only [resolve, bind, Except.bind] at h
  split at h
  · cases h
  · rename_i hcheck
    split at h
    · cases h
    · rename_i phases hphases
      cases h
      exact ⟨(checkContributions_ok_iff.1 hcheck).1, phases, hphases, rfl⟩

/-- The handlers of a chain are the contributions that it was resolved from. -/
theorem perm_of_resolve {order : PhaseOrder} {flow : Flow} {links : List (Link β)}
    {chain : Chain β} (h : resolve order flow links = .ok chain) : chain.links.Perm links := by
  obtain ⟨hacc, phases, hphases, rfl⟩ := resolve_ok h
  have hall : (links.filter fun a => a.phase ∈ order.phases flow ∧ a.phase ∉ []) = links := by
    rw [List.filter_eq_self]
    intro a ha
    simp [hacc.declared a ha]
  have hperm := (fillPhases_filled hphases).perm
  rw [hall] at hperm
  exact hperm

/-- A resolution that fails tells the first fault. -/
theorem firstFault_of_resolve_error {order : PhaseOrder} {flow : Flow} {links : List (Link β)}
    {error : ConfigError} (h : resolve order flow links = .error error) :
    FirstFault order flow links error := by
  simp only [resolve, bind, Except.bind] at h
  split at h
  · rename_i error' hcheck
    cases h
    obtain ⟨earlier, a, later, hsplit, ⟨hacc, -⟩, hfault⟩ := checkContributions_error hcheck
    rcases hfault with ⟨hphase, rfl⟩ | ⟨hphase, hname, rfl⟩
    · exact .undeclared earlier a later hsplit hacc hphase
    · exact .repeated earlier a later hsplit hacc hphase (hname.resolve_left (by simp))
  · rename_i hcheck
    have hacc := (checkContributions_ok_iff.1 hcheck).1
    split at h
    · rename_i error' hfill
      cases h
      obtain ⟨earlier, name, later, hsplit, hearlier, hname, conflict, rfl⟩ :=
        fillPhases_error hacc.distinct hfill
      simp only [bucket_nil] at hearlier hname
      exact .unorderable earlier name later hsplit hacc hearlier hname conflict
    · cases h

/-- A first fault excludes that the contributions fit. -/
theorem FirstFault.not_resolvable {order : PhaseOrder} {flow : Flow} {links : List (Link β)}
    {error : ConfigError} (h : FirstFault order flow links error) :
    ¬ Resolvable order flow links := by
  intro hres
  cases h with
  | undeclared earlier a later split accepted fault =>
    exact fault (hres.declared a (by rw [split]; simp))
  | repeated earlier a later split accepted declared fault =>
    have hdistinct := hres.distinct
    rw [split, List.map_append, List.map_cons, List.nodup_append] at hdistinct
    exact hdistinct.2.2 _ fault _ List.mem_cons_self rfl
  | unorderable earlier name later split accepted orderable fault conflict =>
    exact fault (hres.orderable name (by rw [split]; simp))

/-- **A resolution succeeds exactly for contributions that fit together.** -/
theorem exists_resolve_iff {order : PhaseOrder} {flow : Flow} {links : List (Link β)} :
    (∃ chain, resolve order flow links = .ok chain) ↔ Resolvable order flow links := by
  constructor
  · rintro ⟨chain, h⟩
    obtain ⟨hacc, phases, hfill, -⟩ := resolve_ok h
    refine ⟨hacc, ?_⟩
    intro name hname
    have := orderable_of_fillPhases_ok hacc.distinct hfill name hname
    rwa [bucket_nil] at this
  · intro hres
    cases h : resolve order flow links with
    | ok chain => exact ⟨chain, rfl⟩
    | error error => exact absurd hres (firstFault_of_resolve_error h).not_resolvable

/-- **Fewer contributions fit as well**, in whatever order they are registered. -/
theorem Resolvable.of_subperm {order : PhaseOrder} {flow : Flow} {links fewer : List (Link β)}
    (h : Resolvable order flow links) (hsub : fewer.Subperm links) :
    Resolvable order flow fewer := by
  refine ⟨⟨fun a ha => h.declared a (hsub.subset ha), ?_⟩, ?_⟩
  · obtain ⟨kept, hperm, hkept⟩ := hsub
    exact (hperm.map Link.name).nodup_iff.1 (h.distinct.sublist (hkept.map Link.name))
  · intro name hname
    exact (h.orderable name hname).of_subperm (hsub.filter _)

/-- **The decision of a resolution.**  It succeeds exactly for contributions that fit together, and
    otherwise the error tells their first fault. -/
theorem resolve_decides (order : PhaseOrder) (flow : Flow) (links : List (Link β)) :
    ((∃ chain, resolve order flow links = .ok chain) ↔ Resolvable order flow links) ∧
      ∀ error, resolve order flow links = .error error → FirstFault order flow links error :=
  ⟨exists_resolve_iff, fun _ => firstFault_of_resolve_error⟩

/-- **The chain of a resolution** arranges all contributions as they ask for. -/
theorem resolve_arranges {order : PhaseOrder} {flow : Flow} {links : List (Link β)}
    {chain : Chain β} (h : resolve order flow links = .ok chain) :
    chain.Arranges order flow links := by
  obtain ⟨hacc, phases, hphases, rfl⟩ := resolve_ok h
  have hfill := fillPhases_filled hphases
  have hperm : (phases.flatMap Phase.links).Perm links := by
    have hall : (links.filter fun a => a.phase ∈ order.phases flow ∧ a.phase ∉ []) = links := by
      rw [List.filter_eq_self]
      intro a ha
      simp [hacc.declared a ha]
    rw [← hall]
    exact hfill.perm
  refine ⟨rfl, hfill.names, List.flatMap_def, hperm, ?_, ?_, ?_, ?_, ?_⟩
  · intro a ha
    obtain ⟨phase, hphase, hmem⟩ := List.mem_flatMap.1 (hperm.mem_iff.2 ha)
    obtain ⟨earlier, later, rfl⟩ := List.append_of_mem hphase
    have hname := (hfill.own phase hphase a hmem).1
    have honce := List.pairwise_append.1 hfill.once
    refine ⟨earlier, phase, later, rfl, ?_, hname.symm, hmem, ?_⟩
    · intro p hp heq
      -- an earlier phase of that name would leave this one empty
      have hnil := honce.2.2 p hp phase List.mem_cons_self (heq.trans hname)
      rw [hnil] at hmem
      cases hmem
    · intro p hp heq
      exact (List.pairwise_cons.1 honce.2.1).1 p hp (hname.symm.trans heq.symm)
  · intro phase hphase a ha
    exact (hfill.own phase hphase a ha).1
  · intro phase hphase
    exact (hfill.inOrder phase hphase).first
  · intro phase hphase
    exact (hfill.inOrder phase hphase).last
  · intro i j a b ha hb hne hphase hprec
    apply lt_of_pairwise hfill.pairwise_links ha hb hne
    intro hback
    rw [Link.precedes_iff.2 hprec] at hback
    cases hback hphase.symm

/-- A phase that is declared twice, both claims, a constraint, and registration in another order. -/
theorem resolve_arranges_repeated_phase :
    let links : List (Link Unit) := [
      ⟨{ name := "tail", phase := "A", last := true }, ()⟩,
      ⟨{ name := "x", phase := "A" }, ()⟩,
      ⟨{ name := "z", phase := "A", before := .ofList ["x"] }, ()⟩,
      ⟨{ name := "b", phase := "B" }, ()⟩,
      ⟨{ name := "head", phase := "A", first := true }, ()⟩]
    ∃ chain, resolve (.uniform ["A", "B", "A"]) .inbound links = .ok chain ∧
      chain.handlerNames = ["head", "z", "x", "tail", "b"] ∧
      chain.Arranges (.uniform ["A", "B", "A"]) .inbound links :=
  ⟨_, rfl, rfl, resolve_arranges rfl⟩

end ExchangePipeline
