/-
  ExchangePipeline/Proofs/Session/Confinement.lean
  ================================================
  **What a call on one exchange sees of a session, and what it does to it.**

  An inward handler deals with its own exchange only (`Inward`).  Where all handlers
  are inward (`Session.Serving`), a call on an exchange sees of its session no more
  than the configuration, the chains that are held, and whether cancellation of this
  very exchange has been requested: sessions that agree in these are alike for it
  (`Session.Alike`), whatever their caches hold and whatever else goes on there.  And
  all that the call does to the session, apart from filling the cache, concerns the
  number of its exchange (`Session.Affected`).

  A computation that is `Confined` comes to an end, with the same result and the same
  effect in all sessions that are alike.  This goes through sequences, so handlers are
  confined, and with them walks and all that is done to exchanges
  (`confined_performOn`).
-/
import ExchangePipeline.Proofs.Session.Hosting
import ExchangePipeline.Proofs.Session.StateMachine
import ExchangePipeline.Proofs.Walk.Pauses

namespace ExchangePipeline

/-! ### Inward handlers -/

/-- A handler that deals with its own exchange only. -/
inductive Inward : Handler → Prop where
  | done (outcome : Outcome) : Inward (.done outcome)
  | ask {op : ExchangeOp} {next : Reply → Handler} (goesOn : ∀ reply, Inward (next reply)) :
      Inward (.ask (.own op) next)

/-- Handlers all of which are inward. -/
def InwardLinks (links : List (Link Handler)) : Prop :=
  ∀ link ∈ links, Inward link.body

/-- An exchange that is bound to inward handlers, if it is bound to any. -/
def InwardExchange (x : Exchange Handler) : Prop :=
  ∀ chain, x.chain = some chain → InwardLinks chain.links

/-- The same exchange later on: its number is the same, and its handlers are still inward. -/
structure Continues (x y : Exchange Handler) : Prop where
  id_eq : y.id = x.id
  inward : InwardExchange y

theorem InwardExchange.remaining {x : Exchange Handler} (h : InwardExchange x) :
    InwardLinks x.remaining := by
  intro link hlink
  rw [Exchange.remaining] at hlink
  cases hchain : x.chain with
  | none =>
    rw [hchain] at hlink
    cases hlink
  | some chain =>
    rw [hchain] at hlink
    exact h chain hchain link (List.mem_of_mem_drop hlink)

theorem InwardExchange.continues {x y : Exchange Handler} (h : InwardExchange x) (hid : y.id = x.id)
    (hchain : y.chain = x.chain) : Continues x y :=
  ⟨hid, fun chain hy => h chain (hchain ▸ hy)⟩

theorem InwardExchange.touched {x y : Exchange Handler} (h : InwardExchange x)
    (hy : x.Touched y) : Continues x y :=
  h.continues hy.id_eq hy.chain_eq

namespace Deployment

/-- Everything that chains are resolved from. -/
structure SameConfiguration (d e : Deployment) : Prop where
  tree : e.tree = d.tree
  declared : e.declared = d.declared
  order : e.order = d.order
  modules : e.modules = d.modules

/-- A deployment whose handlers are inward. -/
structure InwardHandlers (d : Deployment) : Prop where
  declared : ∀ entry ∈ d.declared, InwardLinks entry.2
  modules : ∀ m ∈ d.modules, ∀ flow, InwardLinks (m.module.handlers flow)

variable {d e f : Deployment}

theorem SameConfiguration.refl (d : Deployment) : d.SameConfiguration d := ⟨rfl, rfl, rfl, rfl⟩

theorem SameConfiguration.symm (h : d.SameConfiguration e) : e.SameConfiguration d :=
  ⟨h.tree.symm, h.declared.symm, h.order.symm, h.modules.symm⟩

theorem SameConfiguration.trans (h : d.SameConfiguration e) (h' : e.SameConfiguration f) :
    d.SameConfiguration f :=
  ⟨h'.tree.trans h.tree, h'.declared.trans h.declared, h'.order.trans h.order,
    h'.modules.trans h.modules⟩

theorem SameConfiguration.inwardHandlers (h : d.SameConfiguration e) (hd : d.InwardHandlers) :
    e.InwardHandlers :=
  ⟨h.declared ▸ hd.declared, h.modules ▸ hd.modules⟩

theorem InwardHandlers.contributions (h : d.InwardHandlers) (id : NodeId) (flow : Flow) :
    InwardLinks (d.contributions id flow) := by
  intro link hlink
  rcases List.mem_append.1 ((contributions_perm d id flow).mem_iff.1 hlink) with hmodule | hdeclared
  · obtain ⟨name, -, hname⟩ := List.mem_flatMap.1 hmodule
    rw [moduleHandlers] at hname
    cases hm : d.module? name with
    | none =>
      rw [hm] at hname
      cases hname
    | some m =>
      rw [hm] at hname
      exact h.modules m (List.mem_of_find?_eq_some hm) flow link hname
  · obtain ⟨i, -, hi⟩ := List.mem_flatMap.1 hdeclared
    rw [declaredAt] at hi
    cases hl : d.declared.lookup (i, flow) with
    | none =>
      rw [hl] at hi
      cases hi
    | some links =>
      rw [hl] at hi
      exact h.declared ((i, flow), links) (mem_of_lookup hl) link hi

theorem InwardHandlers.chain (h : d.InwardHandlers) (hd : d.Coherent) {key : ChainKey}
    {chain : Chain Handler} (hchain : d.chain key = .ok (chain, e)) : InwardLinks chain.links := by
  obtain ⟨id, -, hresolve⟩ := hd.resolveAt_of_chain hchain
  exact fun link hlink =>
    h.contributions id key.flow link ((perm_of_resolve hresolve).mem_iff.1 hlink)

theorem SameConfiguration.chain {key : ChainKey} {chain : Chain Handler}
    (hchain : d.chain key = .ok (chain, e)) : d.SameConfiguration e := by
  obtain ⟨cached, -, -, rfl⟩ | ⟨-, id, -, -, rfl⟩ := chain_ok hchain
  · exact .refl _
  · exact ⟨rfl, rfl, rfl, rfl⟩

/-- **The cache makes no difference** to the chain that is answered. -/
theorem SameConfiguration.chain_eq (h : d.SameConfiguration e) (hd : d.Coherent) (he : e.Coherent)
    (key : ChainKey) : (e.chain key).map Prod.fst = (d.chain key).map Prod.fst := by
  rw [hd.map_fst_chain, he.map_fst_chain, h.tree]
  congr 1
  exact funext fun id => resolveAt_of_eq h.order h.tree h.declared h.modules id key.flow

end Deployment

namespace Session

/-! ### What a call sees -/

/-- A session on a coherent deployment in which all handlers are inward, also those of the chains
    that are held. -/
structure Serving (s : Session) : Prop where
  deployed : s.source = .deployed
  coherent : s.deployment.Coherent
  inward : s.deployment.InwardHandlers
  held : ∀ name chain, Dict.find? name s.heldChains = some chain → InwardLinks chain.links

/-- Sessions that are alike for calls on the exchange of a number. -/
structure Alike (id : Nat) (s s' : Session) : Prop where
  serving : s.Serving
  serving' : s'.Serving
  configuration : s.deployment.SameConfiguration s'.deployment
  heldChains : s'.heldChains = s.heldChains
  tripped : s'.isTripped id = s.isTripped id

variable {id j : Nat} {s s' t t' u : Session}

theorem Alike.refl (hs : s.Serving) (id : Nat) : s.Alike id s :=
  ⟨hs, hs, .refl _, rfl, rfl⟩

/-! ### What a call does -/

/-- The handlers invoked on the exchange of a number, in the order in which they were. -/
def invokedOn (id : Nat) (s : Session) : List (Link Handler) :=
  s.events.filterMap fun event =>
    match event with
    | .invoked exchange link => if exchange = id then some link else none
    | _ => none

/-- What a call does, the cache aside: whether it requests cancellation, and which handlers it
    invokes. -/
structure Effect where
  trips : Bool := false
  invoked : List (Link Handler) := []

def Effect.append (effect more : Effect) : Effect where
  trips := effect.trips || more.trips
  invoked := effect.invoked ++ more.invoked

/-- A session after an effect that concerns the exchange of a number. -/
structure Affected (id : Nat) (effect : Effect) (s t : Session) : Prop where
  source : t.source = s.source
  coherent : s.deployment.Coherent → t.deployment.Coherent
  configuration : s.deployment.SameConfiguration t.deployment
  exchanges : t.exchanges = s.exchanges
  handles : t.handles = s.handles
  nextExchange : t.nextExchange = s.nextExchange
  heldChains : t.heldChains = s.heldChains
  tripped : ∀ j, t.isTripped j = (s.isTripped j || effect.trips && decide (j = id))
  invoked : ∀ j, t.invokedOn j = s.invokedOn j ++ if j = id then effect.invoked else []

variable {effect effect' : Effect}

theorem Affected.refl (id : Nat) (s : Session) : s.Affected id {} s :=
  ⟨rfl, fun h => h, .refl _, rfl, rfl, rfl, rfl, by simp, by simp⟩

theorem Affected.trans (h : s.Affected id effect t) (h' : t.Affected id effect' u) :
    s.Affected id (effect.append effect') u where
  source := h'.source.trans h.source
  coherent := h'.coherent ∘ h.coherent
  configuration := h.configuration.trans h'.configuration
  exchanges := h'.exchanges.trans h.exchanges
  handles := h'.handles.trans h.handles
  nextExchange := h'.nextExchange.trans h.nextExchange
  heldChains := h'.heldChains.trans h.heldChains
  tripped j := by
    rw [h'.tripped, h.tripped, Effect.append, Bool.or_assoc, Bool.and_or_distrib_right]
  invoked j := by
    rw [h'.invoked, h.invoked, List.append_assoc]
    split <;> rfl

theorem Affected.serving (h : s.Affected id effect t) (hs : s.Serving) : t.Serving where
  deployed := h.source.trans hs.deployed
  coherent := h.coherent hs.coherent
  inward := h.configuration.inwardHandlers hs.inward
  held := h.heldChains ▸ hs.held

/-- The same effect leaves sessions alike that were alike. -/
theorem Alike.affected (h : s.Alike id s') (ht : s.Affected id effect t)
    (ht' : s'.Affected id effect t') : t.Alike id t' where
  serving := ht.serving h.serving
  serving' := ht'.serving h.serving'
  configuration := (ht.configuration.symm.trans h.configuration).trans ht'.configuration
  heldChains := by rw [ht.heldChains, ht'.heldChains, h.heldChains]
  tripped := by rw [ht.tripped, ht'.tripped, h.tripped]

theorem affected_invoked (link : Link Handler) (id : Nat) (s : Session) :
    s.Affected id { invoked := [link] } (s.record (.invoked id link)) where
  source := rfl
  coherent h := h
  configuration := .refl _
  exchanges := rfl
  handles := rfl
  nextExchange := rfl
  heldChains := rfl
  tripped j := by simp [isTripped, record]
  invoked j := by
    rw [invokedOn, events_record, List.filterMap_append, invokedOn]
    by_cases hj : id = j
    · simp [hj]
    · simp [hj, Ne.symm hj]

theorem affected_trip (id : Nat) (s : Session) : s.Affected id { trips := true } (s.trip id) where
  source := rfl
  coherent h := h
  configuration := .refl _
  exchanges := rfl
  handles := rfl
  nextExchange := rfl
  heldChains := rfl
  tripped j := by
    simp [isTripped, trip, Bool.or_comm]
  invoked j := by
    have hevents : (s.trip id).events = s.events ++ [.tripped id] := events_record _ s
    rw [invokedOn, hevents, List.filterMap_append, invokedOn]
    simp

/-! ### Confined computations -/

/-- A computation that comes to an end, with a result that fits, and with the same result and the
    same effect in sessions that are alike. -/
def Confined {α : Type} (id : Nat) (Fits : α → Prop) (act : Doing α) : Prop :=
  ∀ s : Session, s.Serving → ∃ a effect, Fits a ∧
    ∀ s', s.Alike id s' → ∃ t, act.run s' = .ok (a, t) ∧ s'.Affected id effect t

variable {α β : Type} {Fits : α → Prop} {FitsToo : β → Prop} {act : Doing α}

theorem Confined.mono {FitsMore : α → Prop} (h : Confined id Fits act)
    (himp : ∀ a, Fits a → FitsMore a) : Confined id FitsMore act := by
  intro s hs
  obtain ⟨a, effect, ha, hall⟩ := h s hs
  exact ⟨a, effect, himp a ha, hall⟩

/-- A confined computation comes to an end. -/
theorem Confined.exists_run (h : Confined id Fits act) (hs : s.Serving) :
    ∃ a t, act.run s = .ok (a, t) := by
  obtain ⟨a, effect, -, hall⟩ := h s hs
  obtain ⟨t, hrun, -⟩ := hall s (.refl hs id)
  exact ⟨a, t, hrun⟩

theorem Confined.pure {a : α} (ha : Fits a) : Confined id Fits (pure a : Doing α) :=
  fun _ _ => ⟨a, {}, ha, fun s' _ => ⟨s', rfl, .refl id s'⟩⟩

theorem Confined.bind {f : α → Doing β} (h : Confined id Fits act)
    (hf : ∀ a, Fits a → Confined id FitsToo (f a)) : Confined id FitsToo (act >>= f) := by
  intro s hs
  obtain ⟨a, effect, ha, hall⟩ := h s hs
  obtain ⟨t, -, ht⟩ := hall s (.refl hs id)
  obtain ⟨b, effect', hb, hrest⟩ := hf a ha t (ht.serving hs)
  refine ⟨b, effect.append effect', hb, fun s' hs' => ?_⟩
  obtain ⟨t', hrun, ht'⟩ := hall s' hs'
  obtain ⟨u, hrun', hu⟩ := hrest t' (hs'.affected ht ht')
  exact ⟨u, run_bind_ok.2 ⟨a, t', hrun, hrun'⟩, ht'.trans hu⟩

theorem Confined.ite {c : Prop} [Decidable c] {act act' : Doing α} (h : Confined id Fits act)
    (h' : Confined id Fits act') : Confined id Fits (if c then act else act') := by
  split
  · exact h
  · exact h'

/-- What depends on the session must not tell sessions apart that are alike. -/
theorem Confined.get_bind {f : Session → Doing α}
    (hsame : ∀ s s', Session.Alike id s s' → f s' = f s)
    (h : ∀ s : Session, s.Serving → Confined id Fits (f s)) : Confined id Fits (get >>= f) := by
  intro s hs
  obtain ⟨a, effect, ha, hall⟩ := h s hs s hs
  refine ⟨a, effect, ha, fun s' hs' => ?_⟩
  obtain ⟨t, hrun, ht⟩ := hall s' hs'
  refine ⟨t, ?_, ht⟩
  rw [← hsame s s' hs'] at hrun
  exact hrun

theorem Confined.modify {f : Session → Session} (effect : Effect)
    (h : ∀ s : Session, s.Affected id effect (f s)) :
    Confined id (fun _ => True) (modify f : Doing Unit) :=
  fun _ _ => ⟨(), effect, trivial, fun s' _ => ⟨f s', rfl, h s'⟩⟩

/-! ### Chains -/

section

variable {service operation : String} {flow : Flow} {chain : Chain Handler} {e : Deployment}

theorem run_chainFor_ok (hs : s.source = .deployed)
    (h : s.deployment.chain ⟨service, operation, flow⟩ = .ok (chain, e)) :
    (chainFor service operation flow).run s = .ok (.ok chain, { s with deployment := e }) := by
  simp only [chainFor, change, StateT.run_bind, StateT.run_get, pure_bind, hs, h]
  rfl

theorem run_chainFor_error (hs : s.source = .deployed) {error : ConfigError}
    (h : s.deployment.chain ⟨service, operation, flow⟩ = .error error) :
    (chainFor service operation flow).run s = .ok (.error error, s) := by
  simp only [chainFor, change, StateT.run_bind, StateT.run_get, pure_bind, hs, h]
  rfl

end

theorem Affected.deployment {e : Deployment} (hcoherent : s.deployment.Coherent → e.Coherent)
    (h : s.deployment.SameConfiguration e) : s.Affected id {} { s with deployment := e } :=
  ⟨rfl, hcoherent, h, rfl, rfl, rfl, rfl, fun j => by simp [isTripped],
    fun j => by simp [invokedOn, events]⟩

/-- Asking for a chain fills the cache at most. -/
theorem confined_chainFor (id : Nat) (service operation : String) (flow : Flow) :
    Confined id (fun answer => ∀ chain, answer = .ok chain →
      chain.flow = flow ∧ InwardLinks chain.links) (chainFor service operation flow) := by
  intro s hs
  let key : ChainKey := ⟨service, operation, flow⟩
  have hanswer : ∀ {s'}, s.Alike id s' →
      (s'.deployment.chain key).map Prod.fst = (s.deployment.chain key).map Prod.fst :=
    fun h => h.configuration.chain_eq h.serving.coherent h.serving'.coherent key
  cases hchain : s.deployment.chain key with
  | error error =>
    refine ⟨.error error, {}, by simp, fun s' hs' => ⟨s', ?_, .refl id s'⟩⟩
    have hsame := hanswer hs'
    rw [hchain] at hsame
    cases hchain' : s'.deployment.chain key with
    | error error' =>
      rw [hchain'] at hsame
      cases hsame
      exact run_chainFor_error hs'.serving'.deployed hchain'
    | ok result =>
      rw [hchain'] at hsame
      cases hsame
  | ok result =>
    obtain ⟨chain, e⟩ := result
    refine ⟨.ok chain, {}, ?_, fun s' hs' => ?_⟩
    · intro chain' heq
      cases heq
      exact ⟨hs.coherent.flow_eq_of_chain hchain, hs.inward.chain hs.coherent hchain⟩
    have hsame := hanswer hs'
    rw [hchain] at hsame
    cases hchain' : s'.deployment.chain key with
    | error error' =>
      rw [hchain'] at hsame
      cases hsame
    | ok result =>
      obtain ⟨chain', e'⟩ := result
      rw [hchain'] at hsame
      cases hsame
      exact ⟨_, run_chainFor_ok hs'.serving'.deployed hchain',
        .deployment (fun hcoherent => hcoherent.chain hchain') (.chain hchain')⟩

/-! ### Operations on an exchange -/

section

variable {depth : Nat} {inner : Inner} {link : Link Handler} {x y : Exchange Handler}

/-- A driving call along inward handlers. -/
def InwardCall : Call Handler → Prop
  | .runChain chain => InwardLinks chain.links
  | _ => True

theorem chosenChain?_alike (h : s.Alike id s') (x : Exchange Handler) (choice : ChainChoice) :
    s'.chosenChain? x choice = s.chosenChain? x choice := by
  cases choice with
  | bound => rfl
  | held name => exact congrArg (Dict.find? name) h.heldChains

theorem inward_chosenChain? (hs : s.Serving) (hx : InwardExchange x) {choice : ChainChoice}
    {chain : Chain Handler} (h : s.chosenChain? x choice = some chain) :
    InwardLinks chain.links := by
  cases choice with
  | bound => exact hx chain h
  | held name => exact hs.held name chain h

/-- Operations are confined if the driving calls are. -/
theorem confined_performOn_of_calls (Fits : Exchange Handler → Prop) (hx : InwardExchange x)
    (htouched : ∀ y, x.Touched y → Fits y)
    (hcall : ∀ call, InwardCall call →
      Confined x.id (fun driven => Fits driven.2) (call.perform (host inner) x))
    (hcancel : Confined x.id (fun result => Fits result.2) ((host inner).cancel x))
    (op : ExchangeOp) : Confined x.id (fun result => Fits result.2) (performOn inner op x) := by
  have hdriven : ∀ call, InwardCall call → Confined x.id (fun result => Fits result.2)
      (do return drivenReply (← call.perform (host inner) x)) := by
    intro call hinward
    refine .bind (hcall call hinward) ?_
    rintro ⟨error | status, y⟩ hy
    · exact .pure hy
    · exact .pure hy
  cases op with
  | run => exact hdriven .run trivial
  | resume => exact hdriven .resume trivial
  | cancel =>
    refine .bind hcancel ?_
    rintro ⟨error | _, y⟩ hy
    · exact .pure hy
    · exact .pure hy
  | runChain choice =>
    refine .get_bind (fun s s' h => by rw [chosenChain?_alike h]) fun s hs => ?_
    cases hchain : s.chosenChain? x choice with
    | none => exact .pure (htouched x rfl)
    | some chain => exact hdriven (.runChain chain) (inward_chosenChain? hs hx hchain)
  | view =>
    refine .get_bind (fun s s' h => ?_) fun s _ => .pure (htouched x rfl)
    rw [viewOf, viewOf, h.tripped]
  | trip =>
    exact .bind (.modify { trips := true } fun s => affected_trip x.id s) fun _ _ =>
      .pure (htouched x rfl)
  | _ => exact .pure (htouched _ rfl)

/-! ### Handlers -/

theorem confined_performOn_of_running (hstate : x.state = .running) (hx : InwardExchange x)
    (op : ExchangeOp) :
    Confined x.id (fun result => x.Touched result.2) (performOn inner op x) := by
  refine confined_performOn_of_calls x.Touched hx (fun _ h => h) (fun call _ => ?_) ?_ op
  · rw [call.perform_of_not_allowed (host inner) (by cases call <;> simp [Call.AllowedIn, hstate])]
    exact .pure rfl
  · rw [cancel_of_running hstate]
    exact .pure rfl

theorem confined_answers {p : Handler} (hp : Inward p) (hstate : x.state = .running)
    (hx : InwardExchange x) :
    Confined x.id (fun result => x.Touched result.2) ((p.run (answer inner)).run x) := by
  induction hp generalizing x with
  | done outcome => exact .pure (a := (outcome, x)) rfl
  | @ask op next _ ih =>
    rw [Program.run_ask, StateT.run_bind]
    refine .bind (confined_performOn_of_running hstate hx op) fun result hy => ?_
    have hrest := ih result.1 (hy.state_eq.trans hstate) (hx.touched hy).inward
    rw [hy.id_eq] at hrest
    exact hrest.mono fun _ hz => hy.trans hz

/-- **Invoking an inward handler** is confined. -/
theorem confined_invoke (hlink : Inward link.body) (hstate : x.state = .running)
    (hx : InwardExchange x) :
    Confined x.id (fun result => x.Touched result.2)
      ((host (nested (depth + 1))).invoke link x) :=
  .bind (.modify { invoked := [link] } fun s => affected_invoked link x.id s) fun _ _ =>
    confined_answers hlink hstate hx

/-! ### Walks -/

theorem confined_walkAlong {onFault : Host.OnFault Session Handler} {flow : Flow}
    (hfault : ∀ link fault (y : Exchange Handler), InwardExchange y →
      Confined y.id (fun driven => Continues y driven.2) (onFault link flow fault y))
    {rest : List (Link Handler)} (hrest : InwardLinks rest) (hstate : x.state = .running)
    (hflow : x.activeFlow = flow) (hx : InwardExchange x) :
    Confined x.id (fun driven => Continues x driven.2)
      ((host (nested (depth + 1))).walkAlong onFault rest x) := by
  have hcancelled : ∀ {y : Exchange Handler}, InwardExchange y → Confined y.id
      (fun driven : Driven Handler => Continues y driven.2)
      (pure (.error (.cancelled y.id), y.fail (.cancelled y.activeFlow))) :=
    fun hy => .pure (hy.continues rfl rfl)
  have hsame : ∀ {y : Exchange Handler} {α : Type} {a b : Doing α} (s s' : Session),
      s.Alike y.id s' →
        (if (host (nested (depth + 1))).cancelRequested y.id s' = true then a else b) =
          if (host (nested (depth + 1))).cancelRequested y.id s = true then a else b := by
    intro y α a b s s' h
    rw [show (host (nested (depth + 1))).cancelRequested y.id s' =
      (host (nested (depth + 1))).cancelRequested y.id s from h.tripped]
  induction rest generalizing x with
  | nil =>
    rw [Host.walkAlong]
    exact .get_bind hsame fun s _ => .ite (hcancelled hx) (.pure (hx.continues rfl rfl))
  | cons link rest ih =>
    obtain ⟨hlink, hrest⟩ := List.forall_mem_cons.1 hrest
    rw [Host.walkAlong]
    refine .get_bind hsame fun s _ => .ite (hcancelled hx)
      (.bind (confined_invoke hlink hstate hx) ?_)
    rintro ⟨outcome, y⟩ hy
    have hnext : Continues x (y.moveTo (x.cursor + 1)) := hx.continues hy.id_eq hy.chain_eq
    cases outcome with
    | error fault =>
      have hrecovers := hfault link fault _ hnext.inward
      rw [hnext.id_eq, ← hflow] at hrecovers
      exact hrecovers.mono fun driven h => ⟨h.id_eq.trans hnext.id_eq, h.inward⟩
    | ok response =>
      have hgoes := ih hrest (x := y.moveTo (x.cursor + 1)) (hy.state_eq.trans hstate)
        (hy.activeFlow_eq.trans hflow) hnext.inward
      rw [hnext.id_eq] at hgoes
      exact .ite (.pure (hx.continues hy.id_eq hy.chain_eq))
        (hgoes.mono fun driven h => ⟨h.id_eq.trans hnext.id_eq, h.inward⟩)

/-- What comes of a fault is confined, with as many diversions as its flow can need. -/
theorem confined_faultWithin {n : Nat} {flow : Flow} (hn : flow.diversions ≤ n)
    (link : Link Handler) (fault : Fault) (y : Exchange Handler) (hy : InwardExchange y) :
    Confined y.id (fun driven => Continues y driven.2)
      ((host (nested (depth + 1))).faultWithin n link flow fault y) := by
  induction n generalizing flow link fault y with
  | zero => exact absurd hn (Nat.not_le_of_lt flow.diversions_pos)
  | succ n ih =>
    rw [Host.faultWithin]
    dsimp only
    split
    · exact .pure (hy.continues rfl rfl)
    · rename_i hordinary
      rw [Bool.not_eq_true] at hordinary
      refine .bind (confined_chainFor y.id y.service y.operation flow.faultFlow) ?_
      rintro (error | chain) hchain
      · exact .pure (hy.continues rfl rfl)
      · obtain ⟨hflow, hlinks⟩ := hchain chain rfl
        have hleft := Flow.diversions_faultFlow hordinary
        have hdiverted : ∀ record, InwardExchange (y.divert chain record) := by
          intro record other hother
          cases hother
          exact hlinks
        refine (confined_walkAlong (ih ?_) hlinks rfl hflow (hdiverted _)).mono fun driven h =>
          ⟨h.id_eq, h.inward⟩
        omega

theorem confined_walk (hstate : x.state = .running) (hx : InwardExchange x) :
    Confined x.id (fun driven => Continues x driven.2) ((host (nested (depth + 1))).walk x) :=
  confined_walkAlong (confined_faultWithin (Flow.diversions_le _)) hx.remaining hstate rfl hx

theorem confined_runChain {chain : Chain Handler} (hchain : InwardLinks chain.links)
    (hx : InwardExchange x) :
    Confined x.id (fun driven => Continues x driven.2)
      ((host (nested (depth + 1))).runChain chain x) := by
  have hstarted : InwardExchange (x.start chain) := by
    intro other hother
    cases hother
    exact hchain
  exact .ite ((confined_walk rfl hstarted).mono fun driven h => ⟨h.id_eq, h.inward⟩)
    (.pure (hx.continues rfl rfl))

theorem confined_call {call : Call Handler} (hcall : InwardCall call) (hx : InwardExchange x) :
    Confined x.id (fun driven => Continues x driven.2)
      (call.perform (host (nested (depth + 1))) x) := by
  cases call with
  | run =>
    refine .ite (.bind (confined_chainFor x.id _ _ _) ?_) (.pure (hx.continues rfl rfl))
    rintro (error | chain) hchain
    · exact .pure (hx.continues rfl rfl)
    · exact confined_runChain (hchain chain rfl).2 hx
  | runChain chain => exact confined_runChain hcall hx
  | resume =>
    refine Confined.ite ?_ (.pure (hx.continues rfl rfl))
    exact (confined_walk (x := x.unpause) rfl hx).mono fun driven h => ⟨h.id_eq, h.inward⟩

/-- **All that is done to an exchange** is confined. -/
theorem confined_performOn (hx : InwardExchange x) (op : ExchangeOp) :
    Confined x.id (fun result => Continues x result.2)
      (performOn (nested (depth + 1)) op x) := by
  refine confined_performOn_of_calls (Continues x) hx (fun y hy => hx.touched hy)
    (fun call hcall => confined_call hcall hx) ?_ op
  exact .ite (.bind (.modify { trips := true } fun s => affected_trip x.id s) fun _ _ =>
    .pure (hx.continues rfl rfl)) (.pure (hx.continues rfl rfl))

end

end Session

end ExchangePipeline
