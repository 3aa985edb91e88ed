/-
  ExchangePipeline/Proofs/Session/Requests.lean
  =============================================
  **What holds of every request.**

  Requests are many, and what they are made of is little: looks at the session,
  steps of the deployment, notes in the journal, outside code, and a few operations
  with outside code inside.  A property of operations that holds of these and goes
  through sequences holds of every request: of those that configure nothing, if it
  holds of what they are made of (`Pervades`), and of all, if it holds of the steps
  of the deployment as well (`PervadesAll`).  An operation depends on how outside code
  is run, so that such a property may compare several ways to run it.

  No request looks at what the journal tells.  So a property need only go through
  those looks at the session that see the same in one with an older past
  (`Session.after`).

  What programs keep is known from their requests, by induction on the levels
  (`keeping_of_requests`).
-/
import ExchangePipeline.Proofs.Session.Moves

namespace ExchangePipeline

/-! ### Steps that leave modules alone -/

namespace Deployment

/-- A step that has nothing to do with modules. -/
structure Changes (d e : Deployment) : Prop where
  step : Step d e
  modules_eq : e.modules = d.modules

variable {d e : Deployment}

theorem Changes.engage {module : String} {scope : Scope} {added : Bool}
    (hready : d.isReady module = true) (h : d.engage module scope = (.ok added, e)) :
    d.Changes e := by
  refine ⟨.engage hready h, ?_⟩
  obtain ⟨id, -, ⟨-, rfl, -⟩ | ⟨-, tree, -, -, rfl⟩⟩ := engage_ok h
  · rfl
  · rfl

theorem Changes.disengage {module : String} {scope : Scope} {removed : Bool}
    (h : d.disengage module scope = .ok (removed, e)) : d.Changes e := by
  refine ⟨.disengage h, ?_⟩
  obtain ⟨id, -, ⟨-, rfl, -⟩ | ⟨-, tree, -, rfl⟩⟩ := disengage_ok h
  · rfl
  · rfl

theorem Changes.addHandler {scope : Scope} {flow : Flow} {link : Link Handler}
    {result : Except ConfigError Unit} (h : d.addHandler scope flow link = (result, e)) :
    d.Changes e := by
  refine ⟨.addHandler h, ?_⟩
  have hmodules := modules_addHandler d scope flow link
  rw [h] at hmodules
  exact hmodules

theorem Changes.declarePhases {order : PhaseOrder} (h : d.declarePhases order = .ok e) :
    d.Changes e := by
  refine ⟨.declarePhases h, ?_⟩
  obtain ⟨-, rfl⟩ := declarePhases_ok h
  rfl

theorem Changes.chain {key : ChainKey} {chain : Chain Handler}
    (h : d.chain key = .ok (chain, e)) : d.Changes e := by
  refine ⟨.chain h, ?_⟩
  obtain ⟨cached, -, -, rfl⟩ | ⟨-, id, -, -, rfl⟩ := chain_ok h
  · rfl
  · rfl

theorem Changes.registerTransport (d : Deployment) (role : TransportRole)
    (t : RegisteredTransport) : d.Changes (d.registerTransport role t) := by
  refine ⟨.registerTransport role t, ?_⟩
  cases role <;> rfl

end Deployment

/-- The operations of a configuration. -/
def Request.isConfiguration : Request → Bool
  | .addService _ | .addOperation _ _ | .addTransport _ | .scopeNode _ | .moduleNode _ | .services
  | .operations _ | .addParameter _ _ | .parameter _ _ | .isLocked _ _ | .registerModule _
  | .engage _ _ | .disengage _ _ | .engaged _ | .addHandler _ _ _ | .declarePhases _ | .phaseOrder
  | .chain _ _ _ | .cachedChain _ _ _ | .resolveAll => true
  | _ => false

/-- All that outside code does keeps a relation.  Handlers are invoked only where no cancellation
    has been requested. -/
structure Inner.Keeping (R : Session → Session → Prop) (inner : Inner) : Prop where
  invoke : ∀ link x s result t, s.isTripped x.id = false →
    (inner.invoke link x).run s = .ok (result, t) → R s t
  carryOut : ∀ procedure, Keeps R (inner.carryOut procedure)

namespace Session

/-! ### Properties of operations -/

/-- The same session, with an older past. -/
def after (old : List Event) (s : Session) : Session :=
  { s with journal := s.journal ++ old }

/-- A property of operations, as they depend on how outside code is run, that goes through sequences
    and holds of all that requests are made of that configure nothing. -/
structure Pervades (P : (α : Type) → (Inner → Doing α) → Prop) : Prop where
  pure : ∀ {α : Type} (a : α), P α fun _ => pure a
  bind : ∀ {α β : Type} {act : Inner → Doing α} {next : α → Inner → Doing β}, P α act →
    (∀ a, P β (next a)) → P β fun inner => act inner >>= fun a => next a inner
  /-- A look at the session, but not at its past. -/
  look : ∀ {β : Type} {next : Session → Inner → Doing β}, (∀ s, P β (next s)) →
    (∀ s old, next (s.after old) = next s) → P β fun inner => get >>= fun s => next s inner
  notes : ∀ {event : Event}, event.Plain → P Unit fun _ => modify (record event)
  trips : ∀ id, P Unit fun _ => modify (trip id)
  opens : ∀ name service operation direction payload transport,
    P Unit fun _ => modify (openExchange name service operation direction payload transport)
  holds : ∀ name chain,
    P Unit fun _ => modify fun s => { s with heldChains := Dict.insert name chain s.heldChains }
  asks : ∀ key, P _ fun _ => change fun d => d.chain key
  connects : ∀ role t, P _ fun _ => modifyDeployment fun d => d.registerTransport role t
  resolvesAll : P _ fun _ => resolveAll
  setsUp : ∀ name, P _ fun inner => initModule inner name
  carriesOut : ∀ procedure, P _ fun inner => inner.carryOut procedure
  operates : ∀ name op, P _ fun inner => withExchange name (performOn inner op)
  dispatches : ∀ gate name, P _ fun inner => dispatchNamed inner gate name

/-- The same for all requests. -/
structure PervadesAll (P : (α : Type) → (Inner → Doing α) → Prop) : Prop extends Pervades P where
  changes : ∀ {α : Type} {step : Deployment → Except ConfigError (α × Deployment)},
    (∀ d a e, step d = .ok (a, e) → d.Changes e) → P _ fun _ => change step
  declares : ∀ scope flow link, P _ fun _ => take fun d => d.addHandler scope flow link
  registers : ∀ module, P _ fun _ => take fun d => d.registerModule module
  engages : ∀ module scope, P _ fun inner => engage inner module scope

variable {P : (α : Type) → (Inner → Doing α) → Prop} {inner : Inner}

/-! ### Steps of the deployment -/

theorem Pervades.chainFor (h : Pervades P) (service operation : String) (flow : Flow) :
    P _ fun _ => chainFor service operation flow := by
  refine h.look (fun s => ?_) fun _ _ => rfl
  cases s.source with
  | deployed => exact h.asks _
  | fixed order handlers =>
    dsimp only
    split
    · exact h.pure _
    · exact h.pure _

theorem Pervades.registerTransport (h : Pervades P) (role : TransportRole) (name : String)
    (side : TransportSide) : P _ fun _ => registerTransport role name side := by
  refine h.look (fun s => ?_) fun _ _ => rfl
  cases s.deployment.tree.transport? name with
  | none => exact h.pure _
  | some node => exact h.bind (h.connects role _) fun _ => h.pure _

/-! ### Modules and transports -/

theorem Pervades.initEach (h : Pervades P) (names : List String) :
    P _ fun inner => initEach inner names := by
  induction names with
  | nil => exact h.pure _
  | cons name rest ih =>
    refine h.bind (h.setsUp name) ?_
    rintro (error | done)
    · exact h.pure _
    · exact ih

theorem Pervades.initModules (h : Pervades P) : P _ fun inner => initModules inner :=
  h.look (fun _ => h.initEach _) fun _ _ => rfl

theorem Pervades.shutDownEach (h : Pervades P) (names : List String) :
    P _ fun inner => shutDownEach inner names := by
  induction names with
  | nil => exact h.pure _
  | cons name rest ih =>
    refine h.look (fun s => ?_) fun _ _ => rfl
    cases s.deployment.module? name with
    | none => exact ih
    | some m =>
      refine h.bind (h.notes trivial) fun _ => ?_
      refine h.bind (h.carriesOut _) ?_
      rintro (cause | done)
      · exact h.pure _
      · exact ih

theorem Pervades.shutdownModules (h : Pervades P) : P _ fun inner => shutdownModules inner :=
  h.look (fun _ => h.shutDownEach _) fun _ _ => rfl

theorem Pervades.startEach (h : Pervades P) (role : TransportRole)
    (transports : List RegisteredTransport) : P _ fun inner => startEach inner role transports := by
  induction transports with
  | nil => exact h.pure _
  | cons t rest ih =>
    refine h.bind (h.notes trivial) fun _ => ?_
    exact h.bind (h.carriesOut _) fun _ => h.bind ih fun _ => h.pure _

theorem Pervades.initTransports (h : Pervades P) : P _ fun inner => initTransports inner := by
  refine h.look (fun s => ?_) fun _ _ => rfl
  exact h.bind (h.startEach _ _) fun _ => h.bind (h.startEach _ _) fun _ => h.pure _

theorem Pervades.stopEach (h : Pervades P) (role : TransportRole)
    (transports : List RegisteredTransport) : P _ fun inner => stopEach inner role transports := by
  induction transports with
  | nil => exact h.pure _
  | cons t rest ih =>
    refine h.bind (h.notes trivial) fun _ => ?_
    exact h.bind (h.carriesOut _) fun _ => ih

theorem Pervades.stopTransports (h : Pervades P) : P _ fun inner => stopTransports inner := by
  refine h.look (fun s => ?_) fun _ _ => rfl
  exact h.bind (h.stopEach _ _) fun _ => h.stopEach _ _

theorem Pervades.bootstrap (h : Pervades P) : P _ fun inner => bootstrap inner := by
  refine h.bind h.initModules ?_
  rintro (error | done)
  · exact h.pure _
  · refine h.bind h.resolvesAll ?_
    rintro (error | count)
    · exact h.pure _
    · exact h.bind h.initTransports fun _ => h.pure _

theorem Pervades.shutdown (h : Pervades P) : P _ fun inner => shutdown inner :=
  h.bind h.stopTransports fun _ => h.shutdownModules

/-! ### Requests that configure nothing -/

/-- A chain that is not held is missed before the exchange is looked for. -/
theorem Pervades.performOnNamed (h : Pervades P) (name : String) (op : ExchangeOp) :
    P _ fun inner => performOnNamed inner name op := by
  unfold Session.performOnNamed
  split
  · refine h.look (fun s => ?_) fun _ _ => rfl
    split
    · exact h.pure _
    · exact h.operates name _
  · exact h.operates name _

theorem Pervades.perform (h : Pervades P) {request : Request}
    (hother : request.isConfiguration = false) : P _ fun inner => perform inner request := by
  cases request with
  | «open» name service operation direction payload transport =>
    exact h.bind (h.opens ..) fun _ => h.pure _
  | exchange name op => exact h.performOnNamed name op
  | trip name =>
    refine h.look (fun s => ?_) fun _ _ => rfl
    cases Dict.find? name s.handles with
    | none => exact h.pure _
    | some id => exact h.bind (h.trips id) fun _ => h.pure _
  | holdChain name service operation flow =>
    refine h.bind (h.chainFor service operation flow) ?_
    rintro (error | chain)
    · exact h.pure _
    · exact h.bind (h.holds name chain) fun _ => h.pure _
  | dispatch gate name => exact h.dispatches gate name
  | initModule name => exact h.bind (h.setsUp name) fun _ => h.pure _
  | initModules => exact h.bind h.initModules fun _ => h.pure _
  | shutdownModules => exact h.bind h.shutdownModules fun _ => h.pure _
  | register role transport side => exact h.registerTransport role transport side
  | initTransports => exact h.bind h.initTransports fun _ => h.pure _
  | stopTransports => exact h.bind h.stopTransports fun _ => h.pure _
  | bootstrap => exact h.bind h.bootstrap fun _ => h.pure _
  | shutdown => exact h.bind h.shutdown fun _ => h.pure _
  | note note => exact h.bind (h.notes trivial) fun _ => h.pure _
  | scopeLabel scope => exact h.pure _
  | available => exact h.look (fun _ => h.pure _) fun _ _ => rfl
  | metrics => exact h.look (fun _ => h.pure _) fun _ _ => rfl
  | settings => exact h.look (fun _ => h.pure _) fun _ _ => rfl
  | modules => exact h.look (fun _ => h.pure _) fun _ _ => rfl
  | moduleInfo name => exact h.look (fun _ => h.pure _) fun _ _ => rfl
  | transports => exact h.look (fun _ => h.pure _) fun _ _ => rfl
  | glance name => exact h.look (fun _ => h.pure _) fun _ _ => rfl
  | _ => cases hother

/-! ### All requests -/

theorem PervadesAll.changesOnly (h : PervadesAll P)
    {step : Deployment → Except ConfigError Deployment}
    (hstep : ∀ d e, step d = .ok e → d.Changes e) : P _ fun _ => changeOnly step := by
  refine h.changes fun d a e hd => ?_
  cases hresult : step d with
  | error error =>
    rw [hresult] at hd
    cases hd
  | ok e' =>
    rw [hresult] at hd
    cases hd
    exact hstep d _ hresult

theorem Pervades.forIn (h : Pervades P) {α : Type} {l : List α} {f : α → Doing Unit}
    (hf : ∀ a, P _ fun _ => f a) :
    P _ fun _ => forIn l PUnit.unit fun a _ =>
      f a >>= fun _ => Pure.pure (ForInStep.yield PUnit.unit) := by
  induction l with
  | nil => exact h.pure PUnit.unit
  | cons a rest ih =>
    simp only [List.forIn_cons]
    refine h.bind ?_ ?_
    · exact h.bind (hf a) fun _ => h.pure _
    · rintro (_ | _)
      · exact h.pure _
      · exact ih

theorem PervadesAll.registerModule (h : PervadesAll P) (module : Module) :
    P _ fun _ => registerModule module := by
  refine h.bind (h.registers module) ?_
  rintro (error | id)
  · exact h.pure _
  · exact h.bind (h.forIn fun flow => h.notes trivial) fun _ => h.pure _

/-- **Every request** has what its parts have. -/
theorem PervadesAll.perform (h : PervadesAll P) (request : Request) :
    P _ fun inner => perform inner request := by
  cases request with
  | addService name =>
    refine h.bind (h.changes fun d id e hstep => ?_) fun _ => h.pure _
    obtain ⟨⟨node, tree⟩, hadd, hstep⟩ := except_bind_ok.1 hstep
    cases hstep
    exact ⟨.addService hadd, rfl⟩
  | addOperation service name =>
    refine h.bind (h.changes fun d id e hstep => ?_) fun _ => h.pure _
    obtain ⟨⟨node, tree⟩, hadd, hstep⟩ := except_bind_ok.1 hstep
    cases hstep
    exact ⟨.addOperation hadd, rfl⟩
  | addTransport name =>
    refine h.bind (h.changes fun d id e hstep => ?_) fun _ => h.pure _
    obtain ⟨⟨node, tree⟩, hadd, hstep⟩ := except_bind_ok.1 hstep
    cases hstep
    exact ⟨.addTransport hadd, rfl⟩
  | addParameter node parameter =>
    refine h.bind (h.changesOnly fun d e hstep => ?_) fun _ => h.pure _
    cases hadd : d.tree.addParameter node parameter with
    | error error =>
      rw [hadd] at hstep
      cases hstep
    | ok tree =>
      rw [hadd] at hstep
      cases hstep
      exact ⟨.addParameter hadd, rfl⟩
  | registerModule module => exact h.bind (h.registerModule module) fun _ => h.pure _
  | engage module scope => exact h.bind (h.engages module scope) fun _ => h.pure _
  | disengage module scope =>
    exact h.bind (h.changes fun d removed e hstep => .disengage hstep) fun _ => h.pure _
  | addHandler scope flow link => exact h.bind (h.declares scope flow link) fun _ => h.pure _
  | declarePhases order =>
    exact h.bind (h.changesOnly fun d e hstep => .declarePhases hstep) fun _ => h.pure _
  | chain service operation flow => exact h.bind (h.asks _) fun _ => h.pure _
  | resolveAll => exact h.bind h.resolvesAll fun _ => h.pure _
  | scopeNode scope => exact h.look (fun _ => h.pure _) fun _ _ => rfl
  | moduleNode name => exact h.look (fun _ => h.pure _) fun _ _ => rfl
  | services => exact h.look (fun _ => h.pure _) fun _ _ => rfl
  | operations service => exact h.look (fun _ => h.pure _) fun _ _ => rfl
  | parameter node name => exact h.look (fun _ => h.pure _) fun _ _ => rfl
  | isLocked node name => exact h.look (fun _ => h.pure _) fun _ _ => rfl
  | engaged scope => exact h.look (fun _ => h.pure _) fun _ _ => rfl
  | phaseOrder => exact h.look (fun _ => h.pure _) fun _ _ => rfl
  | cachedChain service operation flow => exact h.look (fun _ => h.pure _) fun _ _ => rfl
  | _ => exact h.toPervades.perform rfl

/-! ### What programs keep -/

variable {R : Session → Session → Prop} [IsPreorder Session R]

theorem keeps_change
    (hR : ∀ {s : Session} {e : Deployment}, s.deployment.Changes e → R s { s with deployment := e })
    {α : Type} {step : Deployment → Except ConfigError (α × Deployment)}
    (h : ∀ d a e, step d = .ok (a, e) → d.Changes e) : Keeps R (change step) := by
  intro s result t hrun
  obtain ⟨_, -, rfl⟩ | ⟨a, e, -, hstep, rfl⟩ := change_cases hrun
  · exact refl_of R _
  · exact hR (h _ _ _ hstep)

theorem keeps_chainFor
    (hR : ∀ {s : Session} {e : Deployment}, s.deployment.Changes e → R s { s with deployment := e })
    (service operation : String) (flow : Flow) :
    Keeps R (Session.chainFor service operation flow) := by
  refine Keeps.bind Keeps.get fun s => ?_
  cases s.source with
  | deployed => exact keeps_change hR fun d chain e h => .chain h
  | fixed order handlers =>
    dsimp only
    split
    · exact Keeps.pure _
    · exact Keeps.pure _

/-- An operation on an exchange keeps what walks keep. -/
theorem keeps_performOn (h : (host inner).Keeping R) (op : ExchangeOp) (x : Exchange Handler) :
    Keeps R (performOn inner op x) := by
  cases op with
  | view => exact Keeps.bind Keeps.get fun _ => Keeps.pure _
  | property key => exact Keeps.pure _
  | setProperty key value => exact Keeps.pure _
  | removeProperty key => exact Keeps.pure _
  | setPayload content => exact Keeps.pure _
  | takePayload => exact Keeps.pure _
  | pause => exact Keeps.pure _
  | trip => exact Keeps.bind (Keeps.modify fun s => h.requestCancel x.id s) fun _ => Keeps.pure _
  | run => exact Keeps.bind (h.run x) fun _ => Keeps.pure _
  | resume => exact Keeps.bind (h.resume x) fun _ => Keeps.pure _
  | cancel =>
    refine Keeps.bind (h.cancel x) ?_
    rintro ⟨_ | _, y⟩
    · exact Keeps.pure _
    · exact Keeps.pure _
  | runChain choice =>
    refine Keeps.bind Keeps.get fun s => ?_
    cases s.chosenChain? x choice with
    | none => exact Keeps.pure _
    | some chain => exact Keeps.bind (h.runChain chain x) fun _ => Keeps.pure _

theorem keeps_startOrResume (h : (host inner).Keeping R) (x : Exchange Handler) :
    Keeps R (startOrResume inner x) := by
  unfold startOrResume
  split
  · exact h.resume x
  · exact h.run x

theorem keeps_answer (h : (host inner).Keeping R)
    (hperform : ∀ request, Keeps R (perform inner request)) (ask : Ask Request)
    (x : Exchange Handler) : Keeps R ((answer inner ask).run x) := by
  cases ask with
  | own op => exact keeps_performOn h op x
  | request request => exact Keeps.bind (hperform request) fun _ => Keeps.pure _

/-- **Programs keep what requests keep**, however deep they are nested. -/
theorem keeping_of_requests
    (hinvoked : ∀ s id link, s.isTripped id = false → R s (s.record (.invoked id link)))
    (hhost : ∀ depth, (nested depth).Keeping R → (host (nested depth)).Keeping R)
    (hperform : ∀ depth, (nested depth).Keeping R → ∀ request,
      Keeps R (perform (nested depth) request)) (depth : Nat) : (nested depth).Keeping R := by
  induction depth with
  | zero =>
    refine ⟨?_, fun _ => Keeps.throw _⟩
    intro link x s result t _ hrun
    cases hrun
  | succ depth ih =>
    refine ⟨?_, fun procedure => Keeps.program (hperform depth ih) procedure⟩
    intro link x s result t hfree hrun
    obtain ⟨_, _, hrecorded, hbody⟩ := run_bind_ok.1 hrun
    cases hrecorded
    have hanswer := keeps_answer (hhost depth ih) (hperform depth ih)
    exact trans_of R (hinvoked s x.id link hfree)
      (Keeps.program_beside hanswer link.body x _ _ _ hbody)

end Session

end ExchangePipeline
