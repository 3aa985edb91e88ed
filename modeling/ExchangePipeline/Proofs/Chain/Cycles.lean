/-
  ExchangePipeline/Proofs/Chain/Cycles.lean
  =========================================
  **Constraints that run in a circle.**

  Handlers of a phase that have to run before each other in a circle cannot be put
  in order.  The sorting sees only the handlers between the two ends, but no circle
  leads through the ends: nothing may run before the handler that claims the first
  place, and nothing after the one that claims the last (`Unobstructed.acyclic_all`).

  There is one exception.  A handler that claims both ends and has its phase for
  itself is never asked for its constraints, and so it may name itself
  (`lone_handler_hides_cycle`).  It is the only circle that a resolution lets pass
  (`resolve_passes_cycle_iff`).
-/
import ExchangePipeline.Proofs.Chain.Resolution

namespace ExchangePipeline

variable {α β : Type} {links : List (Link β)}

/-- A way along a relation from something that is led to, to something that leads on, passes only
    through what is led to and leads on. -/
theorem transGen_restrict {r : α → α → Prop} {p : α → Prop}
    (hp : ∀ b, (∃ a, r a b) → (∃ c, r b c) → p b) {a z : α} (h : Relation.TransGen r a z)
    (ha : ∃ x, r x a) (hz : ∃ x, r z x) :
    Relation.TransGen (fun b c => r b c ∧ p b ∧ p c) a z := by
  induction h with
  | single hab => exact .single ⟨hab, hp _ ha ⟨_, hab⟩, hp _ ⟨_, hab⟩ hz⟩
  | @tail b c hab hbc ih =>
    -- the way so far leads to b, and b leads on to c
    have hb : p b := by
      cases hab with
      | single hab => exact hp b ⟨_, hab⟩ ⟨_, hbc⟩
      | tail _ hab => exact hp b ⟨_, hab⟩ ⟨_, hbc⟩
    exact (ih ⟨_, hbc⟩).tail ⟨hbc, hb, hp c ⟨_, hbc⟩ hz⟩

/-- **No circle leads through the ends of a phase**: where the ends are left alone, all handlers are
    free of circles if the inner ones are. -/
theorem Unobstructed.acyclic_all (h : Unobstructed links) : Acyclic links := by
  intro a hcycle
  -- on a circle everyone is preceded and precedes, which neither end may be or do
  have hinner : ∀ b : Link β, (∃ a, a ∈ links ∧ b ∈ links ∧ a.precedes b = true) →
      (∃ c, b ∈ links ∧ c ∈ links ∧ b.precedes c = true) → b.isInner = true := by
    rintro b ⟨a, ha, hb, hab⟩ ⟨c, -, hc, hbc⟩
    have hfirst : b.placement.first = false := by
      rw [← Bool.not_eq_true]
      intro hfirst
      rw [h.none_before_first a ha b hb hfirst] at hab
      cases hab
    have hlast : b.placement.last = false := by
      rw [← Bool.not_eq_true]
      intro hlast
      rw [h.none_after_last b hb c hc hlast] at hbc
      cases hbc
    simp [Link.isInner, hfirst, hlast]
  have hled : ∃ x, x ∈ links ∧ a ∈ links ∧ x.precedes a = true := by
    cases hcycle with
    | single h => exact ⟨_, h⟩
    | tail _ h => exact ⟨_, h⟩
  have hleads : ∃ x, a ∈ links ∧ x ∈ links ∧ a.precedes x = true :=
    (Relation.TransGen.head'_iff.1 hcycle).imp fun _ h => h.1
  refine h.acyclic a (Relation.TransGen.mono ?_ _ _ (transGen_restrict hinner hcycle hled hleads))
  rintro b c ⟨⟨hb, hc, hbc⟩, hbinner, hcinner⟩
  exact ⟨List.mem_filter.2 ⟨hb, hbinner⟩, List.mem_filter.2 ⟨hc, hcinner⟩, hbc⟩

theorem acyclic_singleton_iff {a : Link β} : Acyclic [a] ↔ a.precedes a = false := by
  constructor
  · intro h
    rw [← Bool.not_eq_true]
    intro ha
    exact h a (.single ⟨List.mem_cons_self, List.mem_cons_self, ha⟩)
  · intro ha b hcycle
    obtain ⟨c, ⟨hb, hc, hbc⟩, -⟩ := Relation.TransGen.head'_iff.1 hcycle
    rw [List.mem_singleton.1 hb, List.mem_singleton.1 hc, ha] at hbc
    cases hbc

/-- Handlers that can be put in order are in a circle only if there is one of them, which claims
    both ends and names itself. -/
theorem Orderable.not_acyclic_iff (h : Orderable links) :
    ¬ Acyclic links ↔ ∃ a, links = [a] ∧ a.placement.first = true ∧ a.placement.last = true ∧
      (a.name ∈ a.placement.before ∨ a.name ∈ a.placement.after) := by
  constructor
  · intro hcycle
    -- only for a handler that is alone are the ends not looked at
    have hlone : Lone links := by
      by_contra hlone
      exact hcycle (h.unobstructed hlone).acyclic_all
    obtain ⟨a, rfl, hfirst, hlast⟩ := hlone
    rw [acyclic_singleton_iff, Bool.not_eq_false, Link.precedes_iff] at hcycle
    exact ⟨a, rfl, hfirst, hlast, hcycle⟩
  · rintro ⟨a, rfl, -, -, hself⟩
    rwa [acyclic_singleton_iff, Bool.not_eq_false, Link.precedes_iff]

/-- In contributions that fit together a phase without handlers is free of circles, declared or
    not; so the phases of a resolution are all alike. -/
theorem Resolvable.not_acyclic_iff {order : PhaseOrder} {flow : Flow}
    (h : Resolvable order flow links) (name : String) :
    ¬ Acyclic (inPhase name links) ↔
      ∃ a, inPhase name links = [a] ∧ a.placement.first = true ∧ a.placement.last = true ∧
        (a.name ∈ a.placement.before ∨ a.name ∈ a.placement.after) := by
  by_cases hname : name ∈ order.phases flow
  · exact (h.orderable name hname).not_acyclic_iff
  · have hempty : inPhase name links = [] := by
      rw [inPhase, List.filter_eq_nil_iff]
      intro a ha hphase
      exact hname (of_decide_eq_true hphase ▸ h.declared a ha)
    rw [hempty]
    exact Orderable.nil.not_acyclic_iff

/-- **Which circles a resolution lets pass.**  Contributions with a circle in some phase are resolved
    exactly if they fit together otherwise and that phase is held by one handler, which claims both
    its ends and names itself.  Every other circle is refused. -/
theorem resolve_passes_cycle_iff (order : PhaseOrder) (flow : Flow) (links : List (Link β))
    (name : String) :
    ((∃ chain, resolve order flow links = .ok chain) ∧ ¬ Acyclic (inPhase name links)) ↔
      Resolvable order flow links ∧
        ∃ a, inPhase name links = [a] ∧ a.placement.first = true ∧ a.placement.last = true ∧
          (a.name ∈ a.placement.before ∨ a.name ∈ a.placement.after) := by
  rw [exists_resolve_iff]
  exact and_congr_right fun h => h.not_acyclic_iff name

/-- A handler that has to run before itself, and claims both ends of its phase. -/
def loop : Link Unit :=
  ⟨{ name := "loop", phase := "A", before := .ofList ["loop"], first := true, last := true }, ()⟩

/-- **A circle that passes**: not every phase with a circle keeps a resolution from succeeding. -/
theorem lone_handler_hides_cycle :
    ¬ ∀ (order : PhaseOrder) (flow : Flow) (links : List (Link Unit)) (name : String),
      ¬ Acyclic (inPhase name links) → ∀ chain, resolve order flow links ≠ .ok chain := by
  intro h
  have hcycle : ¬ Acyclic (inPhase "A" [loop]) := by
    have hphase : inPhase "A" [loop] = [loop] := rfl
    rw [hphase, acyclic_singleton_iff, Bool.not_eq_false]
    rfl
  exact h (.uniform ["A"]) .inbound [loop] "A" hcycle _ rfl

end ExchangePipeline
