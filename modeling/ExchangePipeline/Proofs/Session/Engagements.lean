/-
  ExchangePipeline/Proofs/Session/Engagements.lean
  ================================================
  **Engagements that come, come again and go.**

  Whatever has led to a configuration, a chain holds the handlers that the modules
  of its three levels were registered with, each module once, and the handlers that
  are declared there; so a module that is engaged at a scope can be engaged at any
  scope below it, and no chain shows it (`Reachable.modules_count_once`).

  An engagement can be ended and made again, or made and ended, without asking
  whether anything still resolves (`Reachable.engagements_can_be_repeated`).  The
  first puts the module behind the others that are engaged there, and so the chains
  may have another order within their phases; the second brings everything back.
  Of an engagement that sets the module up first, only what comes after the setup is
  compared.
-/
import ExchangePipeline.Proofs.Deployment.Engagements
import ExchangePipeline.Proofs.Deployment.Extension
import ExchangePipeline.Proofs.Session.Refusals
import ExchangePipeline.Proofs.Session.Setups

namespace ExchangePipeline

open Session

namespace Deployment

variable {settings : EngineSettings} {s t : Session} {e : Deployment} {inner : Inner}
  {module : String} {scope : Scope}

/-! ### Requests as changes -/

theorem perform_disengage (inner : Inner) {removed : Bool}
    (h : s.deployment.disengage module scope = .ok (removed, e)) :
    (perform inner (.disengage module scope)).run s =
      .ok (.flag removed, { s with deployment := e }) :=
  run_bind_ok.2 ⟨_, _, run_change (fun d => d.disengage module scope) h, rfl⟩

theorem disengage_of_perform {removed : Bool}
    (hrun : (perform inner (.disengage module scope)).run s = .ok (.flag removed, t)) :
    ∃ e, s.deployment.disengage module scope = .ok (removed, e) ∧
      t = { s with deployment := e } := by
  obtain ⟨result, _, hchange, hreply⟩ := run_bind_ok.1 hrun
  obtain ⟨error, rfl, -⟩ | ⟨removed', e, rfl, hstep, rfl⟩ := change_cases hchange
  · cases hreply
  · cases hreply
    exact ⟨e, hstep, rfl⟩

/-- A module that is ready is engaged without a setup. -/
theorem perform_engage (inner : Inner) {added : Bool} (hready : s.deployment.isReady module = true)
    (h : s.deployment.engage module scope = (.ok added, e)) :
    (perform inner (.engage module scope)).run s = .ok (.flag added, { s with deployment := e }) :=
  run_bind_ok.2 ⟨_, _, run_engage_of_ready inner hready h, rfl⟩

/-- A new engagement is made in the session that the setup of the module leaves, if it had one. -/
theorem engage_of_perform {depth : Nat} {added : Bool}
    (hrun : (perform (nested depth) (.engage module scope)).run s = .ok (.flag added, t)) :
    ∃ u e, (s.deployment.isReady module = true ∧ u = s ∨
        SetsUp (nested depth) module (.ok ()) s u) ∧
      Relation.ReflTransGen Step s.deployment u.deployment ∧
      u.deployment.isReady module = true ∧
      u.deployment.engage module scope = (.ok added, e) ∧ t = { u with deployment := e } := by
  obtain ⟨result, _, hengage, hreply⟩ := run_bind_ok.1 hrun
  obtain ⟨⟨error, rfl⟩, -⟩ | ⟨u, answer, e, hinit, htried, rfl, rfl⟩ := engage_cases hengage
  · cases hreply
  obtain ⟨hadvances, hready⟩ := initModule_ok (keeping_nested depth) hinit
  cases answer with
  | error error => cases hreply
  | ok added' =>
    cases hreply
    refine ⟨u, e, ?_, hadvances.moves.steps, hready rfl, htried, rfl⟩
    obtain ⟨-, hno, -⟩ | ⟨hbefore, -, rfl⟩ | ⟨verdict, hsetup, hverdict⟩ := initModule_cases hinit
    · cases hno
    · exact Or.inl ⟨hbefore, rfl⟩
    · cases verdict with
      | ok done => exact Or.inr hsetup
      | error cause => cases hverdict

/-! ### Modules count once -/

/-- **A module counts once**, at how many levels it may be engaged.  The chain of an operation holds
    what the modules of its three levels were registered with and what is declared there, and
    nothing else.  And where a module is engaged at a node on the way to that of a scope, engaging
    it at the scope as well succeeds and changes no chain. -/
theorem Reachable.modules_count_once (h : Reachable settings s.deployment) :
    (∀ service operation p id, s.deployment.tree.service? service = some p →
      s.deployment.tree.operation? service operation = some id → ∀ flow,
      ∃ (modules : List Module) (chain : Chain Handler) (e : Deployment),
        modules.map ModuleOf.name = (s.deployment.engagedAt rootId ++ s.deployment.engagedAt p ++
          s.deployment.engagedAt id).dedup ∧
        (∀ module ∈ modules, Registered settings module s.deployment) ∧
        s.deployment.chain { service, operation, flow } = .ok (chain, e) ∧
        chain.links.Perm ((modules.flatMap fun module => module.handlers flow) ++
          (s.deployment.declaredAt rootId flow ++ s.deployment.declaredAt p flow ++
            s.deployment.declaredAt id flow))) ∧
    ∀ (inner : Inner) module scope i j, s.deployment.tree.scopeNode scope = .ok j →
      i ∈ s.deployment.tree.ancestry j → module ∈ s.deployment.engagedAt i →
      ∃ t, (perform inner (.engage module scope)).run s =
          .ok (.flag (decide (module ∉ s.deployment.engagedAt j)), t) ∧
        ∀ key, (t.deployment.chain key).map Prod.fst = (s.deployment.chain key).map Prod.fst := by
  have hcoherent := h.coherent
  constructor
  · intro service operation p id hp ho flow
    have hfound : ∀ name ∈ (s.deployment.engagedAt rootId ++ s.deployment.engagedAt p ++
        s.deployment.engagedAt id).dedup, ∃ m, s.deployment.module? name = some m := by
      intro name hname
      rw [List.mem_dedup, List.mem_append, List.mem_append] at hname
      rcases hname with (hroot | hservice) | hoperation
      · exact hcoherent.engaged rootId name hroot
      · exact hcoherent.engaged p name hservice
      · exact hcoherent.engaged id name hoperation
    obtain ⟨modules, hnames, hmodules, hhandlers⟩ := exists_modules hfound
    obtain ⟨chain, e, hchain⟩ :=
      @Coherent.exists_chain s.deployment hcoherent { service, operation, flow } id ho
    have hperm := hcoherent.chain_perm hchain hp ho
    rw [hhandlers] at hperm
    exact ⟨modules, chain, e, hnames,
      fun module hmodule => (registered_iff (Later.steps h)).2 (hmodules module hmodule), hchain,
      hperm⟩
  · intro inner module scope i j hs hbelow hmem
    have hready := h.isReady_of_engagedAt hmem
    obtain ⟨e, htried, hchains⟩ := hcoherent.engage_below hready hs hbelow hmem
    exact ⟨_, perform_engage inner hready htried, hchains⟩

/-- A module engaged for everything and for an operation, where a handler is declared as well. -/
def twiceEngaged : List Request := [
  .addService "orders", .addOperation "orders" "place", .registerModule auditModule,
  .addHandler (.operation "orders" "place") .inbound
    ⟨{ name := "check", phase := "Dispatch" }, .done (.ok .proceed)⟩,
  .engage "audit" (.operation "orders" "place"), .engage "audit" .everywhere]

/-- The module is engaged at the third level too, and the chain has its handler once as before. -/
theorem modules_count_once_of_three_levels :
    ∃ (s t : Session) (modules : List Module) (chain : Chain Handler) (e : Deployment),
      Reachable {} s.deployment ∧
      s.deployment.engagedAt rootId = ["audit"] ∧ s.deployment.engagedAt 1 = [] ∧
      s.deployment.engagedAt 2 = ["audit"] ∧
      modules.map ModuleOf.name = ["audit"] ∧
      (∀ module ∈ modules, Registered {} module s.deployment) ∧
      s.deployment.chain ⟨"orders", "place", .inbound⟩ = .ok (chain, e) ∧
      chain.links.Perm ((modules.flatMap fun module => module.handlers .inbound) ++
        (s.deployment.declaredAt rootId .inbound ++ s.deployment.declaredAt 1 .inbound ++
          s.deployment.declaredAt 2 .inbound)) ∧
      (perform (nested 2) (.engage "audit" (.service "orders"))).run s = .ok (.flag true, t) ∧
      (t.deployment.chain ⟨"orders", "place", .inbound⟩).map Prod.fst = .ok chain := by
  obtain ⟨s, -, -, hs, -, hservice, hoperation, hbelow, hroot, hfree, hthere⟩ :=
    exists_performed {} 2 twiceEngaged (.engage "audit" (.service "orders"))
      (fun s _ _ => s.deployment.tree.service? "orders" = some 1 ∧
        s.deployment.tree.operation? "orders" "place" = some 2 ∧
        rootId ∈ s.deployment.tree.ancestry 1 ∧
        s.deployment.engagedAt rootId = ["audit"] ∧ s.deployment.engagedAt 1 = [] ∧
        s.deployment.engagedAt 2 = ["audit"])
      (by decide +kernel)
  obtain ⟨modules, chain, e, hnames, hregistered, hchain, hperm⟩ :=
    hs.modules_count_once.1 "orders" "place" 1 2 hservice hoperation .inbound
  obtain ⟨t, hrun, hchains⟩ := hs.modules_count_once.2 (nested 2) "audit" (.service "orders")
    rootId 1 (Tree.scopeNode_service_iff.2 hservice) hbelow
    (by rw [hroot]; exact List.mem_singleton_self _)
  rw [hroot, hfree, hthere] at hnames
  rw [hfree] at hrun
  refine ⟨s, t, modules, chain, e, hs, hroot, hfree, hthere, hnames, hregistered, hchain, hperm,
    hrun, ?_⟩
  rw [hchains, hchain]
  rfl

/-! ### Engagements that are repeated -/

/-- **Engagements can be ended and made again, or made and ended.**  After the first every chain is
    there, with the handlers in every phase that it had; after the second the tree is what it was,
    with the engagements in their order, and so is every chain.  An engagement sets the module up
    first if it is not ready, and then `r` is the session that the setup has left. -/
theorem Reachable.engagements_can_be_repeated (h : Reachable settings s.deployment) :
    (∀ inner inner' : Inner,
      (perform inner (.disengage module scope)).run s = .ok (.flag true, t) →
      ∃ u, (perform inner' (.engage module scope)).run t = .ok (.flag true, u) ∧
        Tree.SameShape u.deployment.tree s.deployment.tree ∧
        ∀ key id, s.deployment.tree.operation? key.service key.operation = some id →
          ∃ chain other d e, s.deployment.chain key = .ok (chain, d) ∧
            u.deployment.chain key = .ok (other, e) ∧ other.PhaseByPhase List.Perm chain) ∧
    (∀ (depth : Nat) (inner' : Inner),
      (perform (nested depth) (.engage module scope)).run s = .ok (.flag true, t) →
      ∃ r u, (s.deployment.isReady module = true ∧ r = s ∨
          SetsUp (nested depth) module (.ok ()) s r) ∧
        (perform inner' (.disengage module scope)).run t = .ok (.flag true, u) ∧
        u.deployment.tree = r.deployment.tree ∧
        ∀ key, (u.deployment.chain key).map Prod.fst = (r.deployment.chain key).map Prod.fst) := by
  have hcoherent := h.coherent
  constructor
  · intro inner inner' hrun
    obtain ⟨e, hended, rfl⟩ := disengage_of_perform hrun
    obtain ⟨f, hmade, hshape, hresolve⟩ := hcoherent.engage_of_disengage hended
    have hready : e.isReady module = true := by
      obtain ⟨i, -, hmem, -⟩ := disengage_engagedAt hended
      exact (Step.disengage hended).isReady (h.isReady_of_engagedAt hmem)
    have hf : f.Coherent := (hcoherent.disengage hended).engage hready hmade
    refine ⟨_, perform_engage (s := { s with deployment := e }) inner' hready hmade, hshape, ?_⟩
    intro key id ho
    obtain ⟨chain, d, hchain, hd⟩ := hcoherent.exists_resolved ho
    obtain ⟨other, e', hother, he'⟩ := hf.exists_resolved ((hshape.operation?_eq _ _).trans ho)
    have hid := hcoherent.tree.contributes_of_scopeNode (Tree.scopeNode_operation_iff.2 ho)
    obtain ⟨chain', other', hchain', hother', hphases⟩ := hresolve id hid key.flow
    rw [hchain, Except.ok.injEq] at hchain'
    rw [hother, Except.ok.injEq] at hother'
    subst hchain' hother'
    exact ⟨chain, other, d, e', hd, he', hphases⟩
  · intro depth inner' hrun
    obtain ⟨r, e, hsetup, hsteps, hready, hmade, rfl⟩ := engage_of_perform hrun
    have hr : r.deployment.Coherent := hcoherent.steps hsteps
    have hended := disengage_of_engage hmade
    have hback := (hr.engage hready hmade).disengage hended
    have hrun' := perform_disengage (s := { r with deployment := e }) inner' hended
    refine ⟨r, _, hsetup, hrun', rfl, ?_⟩
    refine hr.map_fst_chain_congr hback rfl fun id _ flow => ?_
    rw [resolveAt_invalidate, resolveAt_invalidate]

/-- A module with a handler in the phase of the other one, and nothing to set up. -/
def traceModule : Module where
  name := "trace"
  handlers
    | .inbound => [⟨{ name := "trace", phase := "Dispatch" }, .done (.ok .proceed)⟩]
    | _ => []
  init _ := .done (.ok ())
  shutdown := .done (.ok ())

/-- Of two modules of a service the first one goes, comes again, and goes. -/
theorem engagements_can_be_repeated_of_two_modules :
    ∃ s t u v, Reachable {} s.deployment ∧ s.deployment.engagedAt 1 = ["audit", "trace"] ∧
      (perform (nested 2) (.disengage "audit" (.service "orders"))).run s = .ok (.flag true, t) ∧
      t.deployment.engagedAt 1 = ["trace"] ∧
      (perform (nested 2) (.engage "audit" (.service "orders"))).run t = .ok (.flag true, u) ∧
      (∃ chain other d e, s.deployment.chain ⟨"orders", "place", .inbound⟩ = .ok (chain, d) ∧
        u.deployment.chain ⟨"orders", "place", .inbound⟩ = .ok (other, e) ∧
        other.PhaseByPhase List.Perm chain) ∧
      (perform (nested 2) (.disengage "audit" (.service "orders"))).run u = .ok (.flag true, v) ∧
      v.deployment.tree = t.deployment.tree := by
  obtain ⟨s, answer, t, hs, hrun, hanswer, hbefore, hafter, hready, hoperation⟩ :=
    exists_performed {} 2 [
        .addService "orders", .addOperation "orders" "place", .registerModule auditModule,
        .registerModule traceModule, .engage "audit" (.service "orders"),
        .engage "trace" (.service "orders")]
      (.disengage "audit" (.service "orders"))
      (fun s answer t => answer.declines = false ∧
        s.deployment.engagedAt 1 = ["audit", "trace"] ∧ t.deployment.engagedAt 1 = ["trace"] ∧
        t.deployment.isReady "audit" = true ∧
        s.deployment.tree.operation? "orders" "place" = some 2)
      (by decide +kernel)
  have hended : answer = .flag true := by
    obtain ⟨result, _, -, hreply⟩ := run_bind_ok.1 hrun
    cases hreply
    rcases result with error | ⟨_ | _⟩
    · cases hanswer
    · cases hanswer
    · rfl
  subst hended
  obtain ⟨u, hmade, -, hchains⟩ := hs.engagements_can_be_repeated.1 (nested 2) (nested 2) hrun
  have ht : Reachable {} t.deployment := Later.performed hs hrun
  obtain ⟨r, v, hsetup, hagain, htree, -⟩ := ht.engagements_can_be_repeated.2 2 (nested 2) hmade
  obtain ⟨-, rfl⟩ | ⟨m, -, hm, hpending, -⟩ := hsetup
  · exact ⟨s, r, u, v, hs, hbefore, hrun, hafter, hmade, hchains _ 2 hoperation, hagain, htree⟩
  · obtain ⟨m', hm', hstatus⟩ := isReady_iff.1 hready
    rw [hm, Option.some.injEq] at hm'
    subst hm'
    cases hpending.symm.trans hstatus

end Deployment

end ExchangePipeline
