/-
  ExchangePipeline/Proofs/Session/Bookkeeping.lean
  ================================================
  **What the records of a deployment promise to walks.**

  Wherever requests have led, at any depth and in the middle of setups, the records
  of the deployment agree (`Deployment.Consistent`), and a cached chain is of the
  flow in its key.  A walk that a fault diverts asks the deployment for a chain of
  the fault flow, so that is what it goes on along
  (`Session.WalksTo.diverts_to_fault_chain`).

  Both together are `Deployment.Reachable.records_agree`.
-/
import ExchangePipeline.Proofs.Deployment.Bookkeeping
import ExchangePipeline.Proofs.Session.Confinement
import ExchangePipeline.Proofs.Session.Setups
import ExchangePipeline.Proofs.Walk.Sequel

namespace ExchangePipeline

namespace Session

variable {s t u : Session} {depth : Nat}

/-! ### Where walks come to -/

/-- Where a driving call on an exchange comes to in a session, turn by turn, with handlers nested to
    some depth. -/
def WalksTo (s : Session) (depth : Nat) (p : Stage Handler × Session) : Prop :=
  ∃ (call : Call Handler) (x : Exchange Handler) (first : Stage Handler × Session),
    call.Begins (host (nested depth)) (x, s) first ∧ (host (nested depth)).Turns first p

/-- A walk keeps the deployment coherent, and its exchange running until it ends. -/
theorem WalksTo.inOrder {p : Stage Handler × Session} (h : s.WalksTo depth p)
    (hs : s.deployment.Coherent) : p.2.deployment.Coherent ∧ p.1.InOrder := by
  obtain ⟨call, x, ⟨first, u⟩, hbegins, hturns⟩ := h
  have hsteady := (lawful_host depth).steady
  obtain ⟨hu, -⟩ := hsteady.begins_good hbegins hs
  obtain ⟨hp, hin, -⟩ := hsteady.turns_inOrder hturns hu hbegins.moves.2
  exact ⟨hp, hin⟩

/-! ### Fault chains -/

/-- A chain that the deployment has given is in its cache. -/
theorem cached_of_chainFor {service operation : String} {flow : Flow} {chain : Chain Handler}
    (hrun : (chainFor service operation flow).run s = .ok (.ok chain, t))
    (ht : t.source = .deployed) :
    ∃ cached, (⟨service, operation, flow⟩, cached) ∈ t.deployment.cache ∧ cached.chain = chain := by
  obtain ⟨_, _, hget, hrun⟩ := run_bind_ok.1 hrun
  cases hget
  cases hsource : s.source with
  | deployed =>
    simp only [hsource] at hrun
    obtain ⟨error, herror, -⟩ | ⟨chain', e, hok, hchain, rfl⟩ := change_cases hrun
    · cases herror
    cases hok
    obtain ⟨cached, hcached, rfl, rfl⟩ | ⟨-, id, -, -, rfl⟩ := Deployment.chain_ok hchain
    · exact ⟨cached, mem_of_lookup hcached, rfl⟩
    · exact ⟨_, List.mem_append_right _ (List.mem_singleton_self _), rfl⟩
  | fixed order handlers =>
    -- such a session has been asked, and is the same afterwards
    simp only [hsource] at hrun
    split at hrun
    · obtain ⟨-, rfl⟩ := Prod.mk.inj (Except.ok.inj hrun)
      rw [hsource] at ht
      cases ht
    · cases hrun

/-- An exchange that a fault has diverted from where it stood as `y`, in the session after that. -/
structure DivertedFrom (y z : Exchange Handler) (u : Session) : Prop where
  ordinary : y.activeFlow.isFault = false
  /-- It has a chain of the fault flow, and walks along it. -/
  bound : ∃ chain, z.chain = some chain ∧ chain.flow = y.activeFlow.faultFlow ∧
    z.activeFlow = chain.flow ∧
    (u.source = .deployed → ∃ cached,
      (⟨z.service, z.operation, chain.flow⟩, cached) ∈ u.deployment.cache ∧ cached.chain = chain)

/-- **A fault after which a walk goes on** binds a chain of the fault flow. -/
theorem WalksTo.diverts_to_fault_chain {y z w : Exchange Handler} {v : Session}
    {link : Link Handler} {rest : List (Link Handler)} {fault : Fault}
    (h : s.WalksTo depth (.walking y, t)) (hs : s.deployment.Coherent)
    (next : y.remaining = link :: rest)
    (faults : ((host (nested depth)).invoke link y).run t = .ok ((.error fault, w), v))
    (hturn : (host (nested depth)).Turn (.walking y, t) (.walking z, u)) :
    DivertedFrom y z u := by
  obtain ⟨ht, hrunning⟩ := h.inOrder hs
  cases hturn with
  | proceeds _ next' returns =>
    obtain ⟨-, houtcome, -⟩ := invoked_of_turn next faults next' returns
    cases houtcome
  | @diverts _ y' _ t' _ link' _ fault' chain _ next' faults' ordinary asked =>
    obtain ⟨ht', -⟩ := (lawful_host depth).invoke ht hrunning faults'
    have hflow : chain.flow = y.activeFlow.faultFlow := flow_eq_of_chainFor ht' asked
    refine ⟨ordinary, chain, rfl, hflow, rfl, fun hsource => ?_⟩
    rw [hflow]
    exact cached_of_chainFor asked hsource

/-- A run whose first handler rejects the exchange is diverted, where a fault chain can be had. -/
theorem exists_diversion {x : Exchange Handler} {chain faultChain : Chain Handler}
    {e e' : Deployment} {placement : Placement} {fault : Fault} {rest : List (Link Handler)}
    (fresh : x.state = .created) (hsource : s.source = .deployed) (hfree : s.isTripped x.id = false)
    (hchain : s.deployment.chain ⟨x.service, x.operation, x.direction⟩ = .ok (chain, e))
    (hlinks : chain.links = ⟨placement, .done (.error fault)⟩ :: rest)
    (hordinary : chain.flow.isFault = false)
    (hfaultChain : e.chain ⟨x.service, x.operation, chain.flow.faultFlow⟩ = .ok (faultChain, e')) :
    ∃ t v z u, s.WalksTo 1 (.walking (x.start chain), t) ∧
      ((host (nested 1)).invoke ⟨placement, .done (.error fault)⟩ (x.start chain)).run t =
        .ok ((.error fault, x.start chain), v) ∧
      (host (nested 1)).Turn (.walking (x.start chain), t) (.walking z, u) := by
  have hbegins : Call.run.Begins (host (nested 1)) (x, s)
      (.walking (x.start chain), { s with deployment := e }) :=
    .run fresh (run_chainFor_ok hsource hchain)
  have hfaults : ((host (nested 1)).invoke ⟨placement, .done (.error fault)⟩ (x.start chain)).run
      { s with deployment := e } = .ok ((.error fault, x.start chain),
        { s with deployment := e }.record (.invoked x.id ⟨placement, .done (.error fault)⟩)) :=
    rfl
  exact ⟨_, _, _, _, ⟨.run, x, _, hbegins, .refl⟩, hfaults,
    .diverts hfree hlinks hfaults hordinary (run_chainFor_ok hsource hfaultChain)⟩

end Session

open Session

namespace Deployment

/-! ### All records -/

variable {settings : EngineSettings} {d : Deployment}

/-- **The records of a deployment agree**, wherever requests have led.  The registry has the names
    of the module nodes, each once and in their order.  What is engaged is ready, and is engaged at
    the root, a service or an operation that is there; handlers are declared at such nodes only, and
    no empty list of them is kept.  What is cached belongs to a deployed operation and to the flow of
    its key.  So a walk that goes on after a fault, in any session with the deployment, goes on along
    a chain of the fault flow. -/
theorem Reachable.records_agree (h : Reachable settings d) :
    (d.moduleNames = d.tree.namesOf .module ∧ d.moduleNames.Nodup) ∧
    (∀ id, ∀ name ∈ d.engagedAt id,
      d.tree.Contributes id ∧ name ∈ d.moduleNames ∧ d.isReady name = true) ∧
    ((∀ entry ∈ d.declared, d.tree.Contributes entry.1.1 ∧ entry.2 ≠ []) ∧
      (d.declared.map Prod.fst).Nodup) ∧
    ((∀ entry ∈ d.cache,
        (∃ id, d.tree.operation? entry.1.service entry.1.operation = some id) ∧
          entry.2.chain.flow = entry.1.flow) ∧
      (d.cache.map Prod.fst).Nodup) ∧
    ∀ (s : Session) (depth : Nat) (y : Exchange Handler) (t : Session), s.deployment = d →
      s.WalksTo depth (.walking y, t) →
      ∀ link rest fault w v, y.remaining = link :: rest →
        ((host (nested depth)).invoke link y).run t = .ok ((.error fault, w), v) →
        ∀ z u, (host (nested depth)).Turn (.walking y, t) (.walking z, u) → DivertedFrom y z u := by
  have hcoherent := h.coherent
  have hconsistent := (consistent_empty settings).steps (coherent_empty settings) (Later.steps h)
  refine ⟨⟨hconsistent.modules, h.nodup_moduleNames⟩, ?_, ⟨?_, hconsistent.declared_nodup⟩,
    ⟨?_, hconsistent.cache_nodup⟩, ?_⟩
  · intro id name hname
    exact ⟨hconsistent.engaged id (List.ne_nil_of_mem hname),
      mem_moduleNames.2 (hcoherent.engaged id name hname), h.isReady_of_engagedAt hname⟩
  · intro entry hentry
    exact ⟨hconsistent.declared entry hentry, hcoherent.declared_nonempty entry hentry⟩
  · intro entry hentry
    obtain ⟨id, ho, hresolve⟩ := hcoherent.cached entry hentry
    exact ⟨⟨id, ho⟩, flow_eq_of_resolve hresolve⟩
  · rintro s depth y t rfl hwalks link rest fault w v next faults z u hturn
    exact hwalks.diverts_to_fault_chain hcoherent next faults hturn

/-- A module whose setup has a service reject whatever comes, and which reports faults. -/
def reportModule : Module where
  name := "report"
  handlers
    | .inFault => [⟨{ name := "report", phase := "Dispatch" }, .done (.ok .proceed)⟩]
    | _ => []
  init _ :=
    .ask (.addHandler (.service "orders") .inbound
      ⟨{ name := "check", phase := "Dispatch" }, .done (.error (.rejected "closed"))⟩) fun _ =>
        .done (.ok ())
  shutdown := .done (.ok ())

def reportRequests : List Request := [
  .addService "orders", .addOperation "orders" "place", .registerModule reportModule,
  .engage "report" .everywhere]

/-- Whether the first handler of a chain rejects whatever comes. -/
def opensStrictly (chain : Chain Handler) : Bool :=
  match chain.links with
  | ⟨_, .done (.error _)⟩ :: _ => true
  | _ => false

theorem exists_link_of_opensStrictly {chain : Chain Handler} (h : opensStrictly chain = true) :
    ∃ placement fault rest, chain.links = ⟨placement, .done (.error fault)⟩ :: rest := by
  unfold opensStrictly at h
  split at h
  · rename_i placement fault rest hlinks
    exact ⟨placement, fault, rest, hlinks⟩
  · cases h

/-- What the setup has declared diverts an exchange to the chain of the module that is engaged. -/
theorem records_agree_of_report :
    ∃ d, Reachable {} d ∧ d.moduleNames = ["report"] ∧ d.tree.namesOf .module = ["report"] ∧
      ∃ y t z u, (Session.create .deployed d).WalksTo 1 (.walking y, t) ∧
        (host (nested 1)).Turn (.walking y, t) (.walking z, u) ∧ y.activeFlow = .inbound ∧
        DivertedFrom y z u := by
  obtain ⟨d, hd, hmodules, hop, hstrict⟩ := exists_reachable {} 2 reportRequests
    (fun d => d.moduleNames = ["report"] ∧ d.tree.operation? "orders" "place" = some 2 ∧
      (d.chain ⟨"orders", "place", .inbound⟩).toOption.map (fun answer => opensStrictly answer.1) =
        some true)
    (by decide +kernel)
  obtain ⟨⟨hnames, -⟩, -, -, -, hdiverts⟩ := hd.records_agree
  obtain ⟨chain, e, hchain⟩ : ∃ chain e,
      d.chain ⟨"orders", "place", .inbound⟩ = .ok (chain, e) := hd.coherent.exists_chain hop
  rw [hchain] at hstrict
  obtain ⟨placement, fault, rest, hlinks⟩ :=
    exists_link_of_opensStrictly (Option.some.inj hstrict)
  have hflow : chain.flow = .inbound := hd.coherent.flow_eq_of_chain hchain
  obtain ⟨faultChain, e', hfaultChain⟩ : ∃ faultChain e',
      e.chain ⟨"orders", "place", chain.flow.faultFlow⟩ = .ok (faultChain, e') :=
    (hd.coherent.chain hchain).exists_chain (by rw [chain_tree hchain]; exact hop)
  obtain ⟨t, v, z, u, hwalks, hfaults, hturn⟩ := exists_diversion
    (x := .create 0 "orders" "place" .inbound none none) (s := .create .deployed d) rfl rfl rfl
    hchain hlinks (by rw [hflow]; rfl) hfaultChain
  exact ⟨d, hd, hmodules, hnames ▸ hmodules, _, t, z, u, hwalks, hturn, hflow,
    hdiverts _ 1 _ t rfl hwalks _ rest fault _ v hlinks hfaults z u hturn⟩

end Deployment

end ExchangePipeline
