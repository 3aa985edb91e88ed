/-
  ExchangePipeline/Proofs/Session/Invalidation.lean
  =================================================
  **Changes drop the chains that they touch, and no others.**

  Which chains a change touches is found out in two ways.  What is contributed to a
  chain comes from the nodes above its operation, up to the root; what is dropped
  from the cache is told by the names of service and operation.  Both agree on which
  operations lie below the node of a scope (`Tree.WellFormed.covers_iff`).  So after
  an accepted change every chain below its scope has to be resolved anew, and every
  other one is cached as the very object it was, with what is true of it unchanged
  (`DropsBelow`).

  An engagement sets the module up first.  What its program does in the session is
  its own affair, so there the comparison begins where the setup has ended.
-/
import ExchangePipeline.Proofs.Session.Refusals

namespace ExchangePipeline

open Session

namespace Deployment

variable {d e : Deployment}

/-! ### The cache -/

theorem lookup_filter_fst {α β : Type} [BEq α] [LawfulBEq α] (p : α → Bool) (key : α)
    (l : List (α × β)) :
    (l.filter fun entry => p entry.1).lookup key = if p key then l.lookup key else none := by
  induction l with
  | nil => simp
  | cons entry rest ih =>
    obtain ⟨k, value⟩ := entry
    by_cases hkey : key = k
    · subst hkey
      cases hp : p key with
      | true => simp [hp]
      | false => simpa [hp] using ih
    · have hne : (key == k) = false := beq_eq_false_iff_ne.2 hkey
      cases hp : p k with
      | true => simpa [hp, List.lookup_cons, hne] using ih
      | false => simpa [hp, List.lookup_cons, hne] using ih

/-- What is left in the cache where the chains of a scope are dropped. -/
theorem cached?_invalidate (d : Deployment) (scope : Scope) (key : ChainKey) :
    (d.invalidate scope).cached? key =
      if scope.covers key.service key.operation then none else d.cached? key := by
  have hlookup := lookup_filter_fst
    (fun key : ChainKey => !scope.covers key.service key.operation) key d.cache
  rw [cached?, invalidate, hlookup]
  cases scope.covers key.service key.operation <;> rfl

/-- Chains are cached for deployed operations only. -/
theorem Coherent.operation?_of_cached (h : d.Coherent) {key : ChainKey} {cached : CachedChain}
    (hcached : d.cached? key = some cached) :
    ∃ i, d.tree.operation? key.service key.operation = some i := by
  obtain ⟨i, hi, -⟩ := h.cached (key, cached) (mem_of_lookup hcached)
  exact ⟨i, hi⟩

/-! ### Changes below a node -/

/-- What an accepted change at a scope, whose node is given, makes of the chains of a deployment.
    An operation lies below the node if the node is on the way from the root to it; the serial
    number of a cached chain tells it from an equal chain resolved another time. -/
structure DropsBelow (scope : Scope) (id : NodeId) (d e : Deployment) : Prop where
  scopeNode : d.tree.scopeNode scope = .ok id
  /-- The same nodes are there afterwards, with the same names, at the same places. -/
  shape : Tree.SameShape e.tree d.tree
  undeployed : ∀ key, d.tree.operation? key.service key.operation = none →
    d.cached? key = none ∧ e.cached? key = none
  dropped : ∀ key i, d.tree.operation? key.service key.operation = some i →
    id ∈ d.tree.ancestry i → e.cached? key = none
  kept : ∀ key i, d.tree.operation? key.service key.operation = some i →
    id ∉ d.tree.ancestry i → e.cached? key = d.cached? key
  /-- Whether or not a chain is cached, it can be had and has the same handlers as before. -/
  elsewhere : ∀ key i, d.tree.operation? key.service key.operation = some i →
    id ∉ d.tree.ancestry i →
      ∃ chain d' e', d.chain key = .ok (chain, d') ∧ e.chain key = .ok (chain, e')
  everything : scope = .everywhere → e.cache = []

/-- **A change confined to a scope** drops what is below it, if it does not reach what is not. -/
theorem Coherent.dropsBelow (h : d.Coherent) {scope : Scope} {id : NodeId}
    (hs : d.tree.scopeNode scope = .ok id) (hshape : Tree.SameShape e.tree d.tree)
    (hcache : e.cache = d.cache) (he : (e.invalidate scope).Coherent)
    (helsewhere : ∀ j, id ∉ d.tree.ancestry j → ∀ flow, e.resolveAt j flow = d.resolveAt j flow) :
    DropsBelow scope id d (e.invalidate scope) := by
  have hcached : ∀ key, (e.invalidate scope).cached? key =
      if scope.covers key.service key.operation then none else d.cached? key := by
    intro key
    rw [cached?_invalidate, cached?, hcache, ← cached?]
  refine ⟨hs, hshape, ?_, ?_, ?_, ?_, ?_⟩
  · intro key hkey
    have hnone : d.cached? key = none := by
      by_contra hsome
      obtain ⟨cached, hcached⟩ := Option.ne_none_iff_exists'.1 hsome
      obtain ⟨i, hi⟩ := h.operation?_of_cached hcached
      rw [hkey] at hi
      cases hi
    refine ⟨hnone, ?_⟩
    rw [hcached, hnone, ite_self]
  · intro key i hi hbelow
    rw [hcached, if_pos ((h.tree.covers_iff hs hi).2 hbelow)]
  · intro key i hi hnot
    rw [hcached, if_neg]
    rwa [h.tree.covers_iff hs hi]
  · intro key i hi hnot
    have hi' : (e.invalidate scope).tree.operation? key.service key.operation = some i :=
      (hshape.operation?_eq _ _).trans hi
    obtain ⟨chain, d', hd⟩ := h.exists_chain hi
    obtain ⟨chain', e', hchain'⟩ := he.exists_chain hi'
    -- both answer what is resolved at the node, and that is the same
    have hsame : (.ok chain' : Except ConfigError _) = .ok chain := by
      calc (.ok chain' : Except ConfigError _)
          = ((e.invalidate scope).chain key).map Prod.fst := by rw [hchain']; rfl
        _ = (e.invalidate scope).resolveAt i key.flow := by
            rw [he.map_fst_chain, Tree.scopeNode_operation_iff.2 hi']; rfl
        _ = e.resolveAt i key.flow :=
            @resolveAt_of_eq e (e.invalidate scope) rfl rfl rfl rfl _ _
        _ = d.resolveAt i key.flow := helsewhere i hnot key.flow
        _ = (d.chain key).map Prod.fst := by
            rw [h.map_fst_chain, Tree.scopeNode_operation_iff.2 hi]; rfl
        _ = .ok chain := by rw [hd]; rfl
    cases hsame
    exact ⟨chain, d', e', hd, hchain'⟩
  · rintro rfl
    exact List.filter_eq_nil_iff.2 (by simp [Scope.covers])

theorem Coherent.engage_dropsBelow (h : d.Coherent) {module : String} {scope : Scope}
    (hready : d.isReady module = true) (he : d.engage module scope = (.ok true, e)) :
    ∃ id, DropsBelow scope id d e := by
  have hcoherent := h.engage hready he
  obtain ⟨id, hs, ⟨hno, -⟩ | ⟨-, tree, ht, -, rfl⟩⟩ := engage_ok he
  · cases hno
  obtain ⟨node, hn, ⟨hno, -⟩ | ⟨-, -, rfl⟩⟩ := Tree.engage_ok ht
  · cases hno
  exact ⟨id, h.dropsBelow hs (d.tree.sameShape_setEngaged id _) rfl hcoherent
    fun j hj flow => resolveAt_setEngaged_elsewhere hn _ hj flow⟩

theorem Coherent.disengage_dropsBelow (h : d.Coherent) {module : String} {scope : Scope}
    (he : d.disengage module scope = .ok (true, e)) : ∃ id, DropsBelow scope id d e := by
  have hcoherent := h.disengage he
  obtain ⟨id, hs, ⟨hno, -⟩ | ⟨-, tree, ht, rfl⟩⟩ := disengage_ok he
  · cases hno
  obtain ⟨node, hn, ⟨hno, -⟩ | ⟨-, -, rfl⟩⟩ := Tree.disengage_ok ht
  · cases hno
  exact ⟨id, h.dropsBelow hs (d.tree.sameShape_setEngaged id _) rfl hcoherent
    fun j hj flow => resolveAt_setEngaged_elsewhere hn _ hj flow⟩

theorem Coherent.addHandler_dropsBelow (h : d.Coherent) {scope : Scope} {flow : Flow}
    {link : Link Handler} (he : d.addHandler scope flow link = (.ok (), e)) :
    ∃ id, DropsBelow scope id d e := by
  have hcoherent := h.addHandler he
  obtain ⟨id, hs, -, rfl⟩ := addHandler_ok he
  exact ⟨id, h.dropsBelow hs rfl rfl hcoherent
    fun j hj other => resolveAt_declareHandler_elsewhere hj flow link other⟩

/-! ### Requests -/

variable {settings : EngineSettings} {s t : Session} {depth : Nat} {scope : Scope}

/-- **Invalidation is exact.**  Whatever requests, handlers and setups have made of a configuration,
    an engagement, the end of one, or a declared handler drops the chains below its scope, and
    leaves all others as they are.  An engagement sets the module up first if it is not ready, and
    then `u` is the session that the setup has left. -/
theorem Reachable.invalidation_is_exact (h : Reachable settings s.deployment) :
    (∀ module, (perform (nested depth) (.engage module scope)).run s = .ok (.flag true, t) →
      ∃ u id, (s.deployment.isReady module = true ∧ u = s ∨
          SetsUp (nested depth) module (.ok ()) s u) ∧
        DropsBelow scope id u.deployment t.deployment) ∧
    (∀ module, (perform (nested depth) (.disengage module scope)).run s = .ok (.flag true, t) →
      ∃ id, DropsBelow scope id s.deployment t.deployment) ∧
    (∀ flow link, (perform (nested depth) (.addHandler scope flow link)).run s = .ok (.done, t) →
      ∃ id, DropsBelow scope id s.deployment t.deployment) := by
  refine ⟨fun module hrun => ?_, fun module hrun => ?_, fun flow link hrun => ?_⟩
  · obtain ⟨result, _, hengage, hreply⟩ := run_bind_ok.1 hrun
    obtain ⟨⟨error, rfl⟩, -⟩ | ⟨u, answer, e, hinit, htried, rfl, rfl⟩ := engage_cases hengage
    · cases hreply
    obtain ⟨hadvances, hready⟩ := initModule_ok (keeping_nested depth) hinit
    have hu : u.deployment.Coherent := h.coherent.steps hadvances.moves.steps
    cases answer with
    | error error => cases hreply
    | ok added =>
      cases hreply
      obtain ⟨id, hdrops⟩ := hu.engage_dropsBelow (hready rfl) htried
      refine ⟨u, id, ?_, hdrops⟩
      obtain ⟨-, hno, -⟩ | ⟨hbefore, -, rfl⟩ | ⟨verdict, hsetup, hverdict⟩ :=
        initModule_cases hinit
      · cases hno
      · exact Or.inl ⟨hbefore, rfl⟩
      · cases verdict with
        | ok done => exact Or.inr hsetup
        | error cause => cases hverdict
  · obtain ⟨result, _, hchange, hreply⟩ := run_bind_ok.1 hrun
    obtain ⟨error, rfl, -⟩ | ⟨removed, e, rfl, hstep, rfl⟩ := change_cases hchange
    · cases hreply
    · cases hreply
      exact h.coherent.disengage_dropsBelow hstep
  · obtain ⟨result, _, htake, hreply⟩ := run_bind_ok.1 hrun
    obtain ⟨e, hstep, rfl⟩ := take_ok htake
    cases result with
    | error error => cases hreply
    | ok done =>
      cases hreply
      exact h.coherent.addHandler_dropsBelow hstep

/-- Two services with a cached chain each, and a module whose setup declares a handler. -/
def twoServices : List Request := [
  .addService "orders", .addOperation "orders" "place", .addService "billing",
  .addOperation "billing" "charge", .registerModule auditModule,
  .chain "orders" "place" .inbound, .chain "billing" "charge" .inbound]

/-- The first service loses its chain when a module is engaged for it, and the second one keeps the
    object that it had after the setup, which is the one from before. -/
theorem invalidation_is_exact_of_two_services :
    ∃ s t u, (perform (nested 2) (.engage "audit" (.service "orders"))).run s =
        .ok (.flag true, t) ∧
      SetsUp (nested 2) "audit" (.ok ()) s u ∧
      (s.deployment.cached? ⟨"orders", "place", .inbound⟩).isSome = true ∧
      t.deployment.cached? ⟨"orders", "place", .inbound⟩ = none ∧
      t.deployment.cached? ⟨"billing", "charge", .inbound⟩ =
        u.deployment.cached? ⟨"billing", "charge", .inbound⟩ ∧
      (t.deployment.cached? ⟨"billing", "charge", .inbound⟩).map (·.serial) = some 1 := by
  obtain ⟨s, answer, t, hs, hrun, hanswer, hpending, hbefore, hscope, hplace, hcharge, hbelow,
      hnot, hserial⟩ :=
    exists_performed {} 2 twoServices (.engage "audit" (.service "orders"))
      (fun s answer t => answer.declines = false ∧
        s.deployment.isReady "audit" = false ∧
        (s.deployment.cached? ⟨"orders", "place", .inbound⟩).isSome = true ∧
        t.deployment.tree.scopeNode (.service "orders") = .ok 1 ∧
        t.deployment.tree.operation? "orders" "place" = some 2 ∧
        t.deployment.tree.operation? "billing" "charge" = some 4 ∧
        1 ∈ t.deployment.tree.ancestry 2 ∧ 1 ∉ t.deployment.tree.ancestry 4 ∧
        (t.deployment.cached? ⟨"billing", "charge", .inbound⟩).map (·.serial) = some 1)
      (by decide +kernel)
  obtain ⟨result, _, hengage, hreply⟩ := run_bind_ok.1 hrun
  cases hreply
  have hdone : result = .ok true := by
    rcases result with error | ⟨_ | _⟩
    · cases hanswer
    · cases hanswer
    · rfl
  subst hdone
  obtain ⟨u, id, ⟨hready, -⟩ | hsetup, hdrops⟩ := hs.invalidation_is_exact.1 _ hrun
  · cases hpending.symm.trans hready
  rw [hdrops.shape.scopeNode_eq, hdrops.scopeNode] at hscope
  cases hscope
  rw [hdrops.shape.operation?_eq] at hplace hcharge
  rw [hdrops.shape.ancestry_eq] at hbelow hnot
  exact ⟨s, t, u, hrun, hsetup, hbefore, hdrops.dropped _ 2 hplace hbelow,
    hdrops.kept _ 4 hcharge hnot, hserial⟩

end Deployment

end ExchangePipeline
