/-
  ExchangePipeline/Proofs/Session/Reachable.lean
  ==============================================
  **The deployments that requests can reach.**

  Requests come one after the other, from outside, from handlers and transports,
  and from the setup of modules; each may be refused, and each may bring about
  others.  Whatever they are, everything that is deployed resolves
  (`Reachable.resolves_everywhere`), and a cached chain is the one that would be
  resolved anew (`Reachable.cache_is_current`).
-/
import ExchangePipeline.Proofs.Deployment.Coherence
import ExchangePipeline.Proofs.Session.Advancing

namespace ExchangePipeline

open Session

namespace Deployment

/-! ### Later moments -/

/-- The moments in the life of a deployment.  Requests are performed on any session that has it,
    with programs nested to any depth; and when a setup has begun, the requests that its program
    makes come next. -/
inductive Later : Deployment → Deployment → Prop
  | now (d : Deployment) : Later d d
  | performed {d : Deployment} {s t : Session} {depth : Nat} {request : Request} {reply : Reply}
      (earlier : Later d s.deployment)
      (performs : (perform (nested depth) request).run s = .ok (reply, t)) :
      Later d t.deployment
  | initBegun {d e : Deployment} {name : String} {m : RegisteredModule} (earlier : Later d e)
      (registered : e.module? name = some m) (pending : m.status = .pending) :
      Later d (e.beginInit name)

/-- The deployments that come from nothing but settings. -/
def Reachable (settings : EngineSettings) (d : Deployment) : Prop :=
  Later (.empty settings) d

variable {settings : EngineSettings} {d e : Deployment}

theorem Later.steps (h : Later d e) : Relation.ReflTransGen Step d e := by
  induction h with
  | now => exact .refl
  | @performed s t depth request reply _ performs ih =>
    have hperform := keeps_perform (keeping_nested depth) request s reply t performs
    exact ih.trans hperform.moves.steps
  | initBegun _ registered pending ih => exact ih.tail (.initBegins registered pending)

/-- What every request keeps is kept by a list of requests, whose replies are noted. -/
theorem build_keeps {P : Session → Prop} {depth : Nat}
    (hperform : ∀ {s t : Session} {request reply},
      (perform (nested depth) request).run s = .ok (reply, t) → P s → P t)
    {s t : Session} {requests : List Request} {result : Except DeploymentError Unit}
    (hbuild : (Session.build (nested depth) requests).run s = .ok (result, t)) (h : P s) : P t := by
  induction requests generalizing s with
  | nil =>
    cases hbuild
    exact h
  | cons request rest ih =>
    obtain ⟨reply, u, hfirst, hbuild⟩ := run_bind_ok.1 hbuild
    have hu := hperform hfirst h
    dsimp only at hbuild
    split at hbuild
    · cases hbuild
      exact hu
    · obtain ⟨_, v, hnoted, hbuild⟩ := run_bind_ok.1 hbuild
      cases hnoted
      -- noting the reply is what a request for a note does
      have hnote : (perform (nested depth) (.note (.answered reply))).run u = .ok (.done, _) := rfl
      exact ih hbuild (hperform hnote hu)

/-- A list of requests, performed up to the first refusal of a deployment step. -/
theorem Later.build {s t : Session} {depth : Nat} {requests : List Request}
    {result : Except DeploymentError Unit} (h : Later d s.deployment)
    (hbuild : (Session.build (nested depth) requests).run s = .ok (result, t)) :
    Later d t.deployment :=
  build_keeps (P := fun s => Later d s.deployment)
    (fun hperform hlater => .performed hlater hperform) hbuild h

/-- What requests lead to can be reached, as far as it can be checked. -/
theorem exists_reachable (settings : EngineSettings) (depth : Nat) (requests : List Request)
    (p : Deployment → Prop) [DecidablePred p]
    (h : (match (Session.build (nested depth) requests).run (.create .deployed (.empty settings)) with
      | .ok (_, s) => decide (p s.deployment)
      | .error _ => false) = true) :
    ∃ d, Reachable settings d ∧ p d := by
  split at h
  · rename_i result s hbuild
    exact ⟨s.deployment, Later.build (.now _) hbuild, of_decide_eq_true h⟩
  · cases h

theorem Reachable.coherent (h : Reachable settings d) : d.Coherent :=
  (coherent_empty settings).steps (Later.steps h)

/-! ### Chains of coherent deployments -/

/-- A coherent deployment answers as if it had no cache. -/
theorem Coherent.map_fst_chain (h : d.Coherent) (key : ChainKey) :
    (d.chain key).map Prod.fst =
      d.tree.scopeNode (.operation key.service key.operation) >>= fun id =>
        d.resolveAt id key.flow := by
  rw [Deployment.chain]
  cases hc : d.cached? key with
  | some cached =>
    obtain ⟨id, ho, hr⟩ := h.cached (key, cached) (mem_of_lookup hc)
    rw [Tree.scopeNode_operation_iff.2 ho]
    exact hr.symm
  | none =>
    cases d.tree.scopeNode (.operation key.service key.operation) with
    | error error => rfl
    | ok id =>
      simp only [resolveAt, bind, Except.bind]
      cases resolve d.order key.flow (d.contributions id key.flow) with
      | error error => rfl
      | ok chain => rfl

/-- The chain of a deployed operation can be had. -/
theorem Coherent.exists_chain (h : d.Coherent) {key : ChainKey} {id : NodeId}
    (ho : d.tree.operation? key.service key.operation = some id) :
    ∃ chain e, d.chain key = .ok (chain, e) := by
  have hs := Tree.scopeNode_operation_iff.2 ho
  obtain ⟨chain, hr⟩ := h.resolves id (h.tree.contributes_of_scopeNode hs) key.flow
  have hanswer := h.map_fst_chain key
  rw [hs] at hanswer
  cases hc : d.chain key with
  | error error =>
    rw [hc] at hanswer
    cases hanswer.trans hr
  | ok result => exact ⟨result.1, result.2, rfl⟩

/-- A chain that is answered is what resolving gives. -/
theorem Coherent.resolveAt_of_chain (h : d.Coherent) {key : ChainKey} {chain : Chain Handler}
    (hchain : d.chain key = .ok (chain, e)) :
    ∃ id, d.tree.operation? key.service key.operation = some id ∧
      d.resolveAt id key.flow = .ok chain := by
  obtain ⟨cached, hcached, rfl, -⟩ | ⟨-, id, hs, hresolve, -⟩ := chain_ok hchain
  · exact h.cached (key, cached) (mem_of_lookup hcached)
  · exact ⟨id, Tree.scopeNode_operation_iff.1 hs, hresolve⟩

theorem chain_tree {key : ChainKey} {chain : Chain Handler} (h : d.chain key = .ok (chain, e)) :
    e.tree = d.tree := by
  obtain ⟨cached, -, -, rfl⟩ | ⟨-, id, -, -, rfl⟩ := chain_ok h
  · rfl
  · rfl

theorem Coherent.cacheAll_ok (h : d.Coherent) {keys : List ChainKey}
    (hkeys : ∀ key ∈ keys, ∃ id, d.tree.operation? key.service key.operation = some id) :
    (cacheAll keys d).1 = .ok () := by
  induction keys generalizing d with
  | nil => rfl
  | cons key rest ih =>
    obtain ⟨id, ho⟩ := hkeys key List.mem_cons_self
    obtain ⟨chain, e, hc⟩ := h.exists_chain ho
    rw [cacheAll, hc]
    apply ih (h.chain hc)
    intro other hother
    rw [chain_tree hc]
    exact hkeys other (List.mem_cons_of_mem _ hother)

/-- The keys of all chains are those of deployed operations. -/
theorem Coherent.operation?_of_mem_allKeys (h : d.Coherent) {key : ChainKey}
    (hkey : key ∈ d.allKeys) :
    ∃ id, d.tree.operation? key.service key.operation = some id := by
  obtain ⟨service, -, hkey⟩ := List.mem_flatMap.1 hkey
  obtain ⟨operation, hmem, hkey⟩ := List.mem_flatMap.1 hkey
  obtain ⟨flow, -, rfl⟩ := List.mem_map.1 hkey
  exact h.tree.mem_operations.1 hmem

/-! ### Everything resolves -/

/-- **Every deployment that can be reached resolves everywhere.**  So every deployed operation has
    its chains, and having all of them in the cache never fails. -/
theorem Reachable.resolves_everywhere (h : Reachable settings d) :
    (∀ id node, d.tree.node? id = some node →
      (node.kind = .root ∨ node.kind = .service ∨ node.kind = .operation) →
      ∀ flow, ∃ chain, resolve d.order flow (d.contributions id flow) = .ok chain) ∧
    (∀ service operation id, d.tree.operation? service operation = some id →
      ∀ flow, ∃ chain e, d.chain { service, operation, flow } = .ok (chain, e)) ∧
    ∃ e, d.resolveAll = (.ok d.allKeys.length, e) := by
  have hcoherent := h.coherent
  refine ⟨?_, ?_, ?_⟩
  · intro id node hn hkind flow
    refine hcoherent.resolves id ⟨node, hn, ?_⟩ flow
    rcases hkind with hk | hk | hk <;> rw [hk] <;> rfl
  · intro service operation id ho flow
    exact hcoherent.exists_chain ho
  · have hall := hcoherent.cacheAll_ok fun key => hcoherent.operation?_of_mem_allKeys
    refine ⟨(cacheAll d.allKeys d).2, ?_⟩
    simp only [resolveAll, hall]
    rfl

/-- A module whose setup declares a handler of its own, and resolves a chain before it is ready. -/
def auditModule : Module where
  name := "audit"
  handlers
    | .inbound => [⟨{ name := "audit", phase := "Dispatch" }, .done (.ok .proceed)⟩]
    | _ => []
  init _ :=
    .ask (.addHandler (.service "orders") .inbound
        ⟨{ name := "early", phase := "Dispatch", first := true }, .done (.ok .proceed)⟩) fun _ =>
      .ask (.chain "orders" "place" .inbound) fun _ => .done (.ok ())
  shutdown := .done (.ok ())

/-- The module is engaged for one service, then everywhere, then no longer everywhere. -/
def auditRequests : List Request := [
  .addService "orders", .addOperation "orders" "place", .registerModule auditModule,
  .engage "audit" (.service "orders"), .engage "audit" .everywhere,
  .chain "orders" "place" .inbound, .disengage "audit" .everywhere,
  .addOperation "orders" "cancel", .chain "orders" "place" .inbound]

/-- An engagement for everything has ended, which moves handlers; a new operation has its chains. -/
theorem resolves_everywhere_after_disengagement :
    ∃ d, Reachable {} d ∧ d.engagedAt rootId = [] ∧
      (d.contributions 2 .inbound).map Link.name = ["audit", "early"] ∧
      ∃ chain e, d.chain ⟨"orders", "cancel", .inbound⟩ = .ok (chain, e) := by
  obtain ⟨d, hd, hroot, hnames, hcancel⟩ := exists_reachable {} 2 auditRequests
    (fun d => d.engagedAt rootId = [] ∧
      (d.contributions 2 .inbound).map Link.name = ["audit", "early"] ∧
      d.tree.operation? "orders" "cancel" = some 4)
    (by decide +kernel)
  exact ⟨d, hd, hroot, hnames, hd.resolves_everywhere.2.1 _ _ _ hcancel .inbound⟩

/-! ### The cache is right -/

/-- **The cache holds what is true now.**  Every cached key is that of a deployed operation, with
    the chain that its contributions resolve to; so asking for a chain is answered in the same way
    whether or not anything is cached. -/
theorem Reachable.cache_is_current (h : Reachable settings d) :
    (∀ key cached, (key, cached) ∈ d.cache →
      ∃ id, d.tree.operation? key.service key.operation = some id ∧
        resolve d.order key.flow (d.contributions id key.flow) = .ok cached.chain) ∧
    ∀ key, (d.chain key).map Prod.fst = ({ d with cache := [] }.chain key).map Prod.fst := by
  have hcoherent := h.coherent
  refine ⟨fun key cached hmem => hcoherent.cached _ hmem, fun key => ?_⟩
  have hsame := @resolveAt_of_eq d { d with cache := [] } rfl rfl rfl rfl
  have hbare : { d with cache := [] }.Coherent := by
    refine ⟨hcoherent.tree, hcoherent.declared, hcoherent.engaged, ?_, fun _ hmem => by cases hmem⟩
    intro id hid flow
    rw [hsame]
    exact hcoherent.resolves id hid flow
  rw [hcoherent.map_fst_chain, hbare.map_fst_chain]
  simp only [hsame]

/-- A chain was resolved from inside a setup and again later, and the last one is what counts. -/
theorem cache_is_current_after_disengagement :
    ∃ d cached, Reachable {} d ∧ (⟨"orders", "place", .inbound⟩, cached) ∈ d.cache ∧
      cached.chain.handlerNames = ["early", "audit"] ∧
      ∃ id, d.tree.operation? "orders" "place" = some id ∧
        resolve d.order .inbound (d.contributions id .inbound) = .ok cached.chain := by
  obtain ⟨d, hd, hnames⟩ := exists_reachable {} 2 auditRequests
    (fun d => (d.cached? ⟨"orders", "place", .inbound⟩).map (·.chain.handlerNames) =
      some ["early", "audit"])
    (by decide +kernel)
  obtain ⟨cached, hcached, hnames⟩ := Option.map_eq_some_iff.1 hnames
  obtain ⟨before, after, hcache, -⟩ := List.lookup_eq_some_iff.1 hcached
  have hmem : (⟨"orders", "place", .inbound⟩, cached) ∈ d.cache := by
    rw [hcache]
    simp
  exact ⟨d, cached, hd, hmem, hnames, hd.cache_is_current.1 _ _ hmem⟩

end Deployment

end ExchangePipeline
