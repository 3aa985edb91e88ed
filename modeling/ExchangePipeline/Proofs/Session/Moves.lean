/-
  ExchangePipeline/Proofs/Session/Moves.lean
  ==========================================
  **Sessions, move by move.**

  Whatever a session does for its users, it does in moves (`Move`): its deployment
  takes a step, a setup begins or ends, a handler is invoked, a cancellation is
  requested, a gate lets an exchange in or takes the permit back.  Each move writes
  at most one event into the journal.

  Operations that make several moves, with outside code between them, get one
  statement each of everything that can come of them (`initModule_cases`,
  `engage_cases`, `dispatch_cases`, `withExchange_cases`).
-/
import ExchangePipeline.Proofs.Deployment.Steps
import ExchangePipeline.Proofs.Keeping
import ExchangePipeline.Session.Perform
import Mathlib.Logic.Relation

namespace ExchangePipeline

/-- An event that tells of nothing that a session keeps a record of besides. -/
def Event.Plain : Event → Prop
  | .contributed _ _ | .moduleShutDown _ | .transportStarted _ _ | .transportStopped _ _
  | .noted _ => True
  | _ => False

namespace Session

variable {inner : Inner} {s t : Session}

/-! ### Moves -/

/-- The session in which the setup of a module begins. -/
def beginSetup (name : String) (s : Session) : Session :=
  record (.initBegan name) { s with deployment := s.deployment.beginInit name }

/-- The session in which the setup of a module has ended. -/
def endSetup (name : String) (verdict : Verdict) (s : Session) : Session :=
  record (.initEnded name verdict.isOk)
    { s with deployment := s.deployment.endInit name (if verdict.isOk then .ready else .pending) }

/-- A gate lets an exchange in, and has so many free permits left. -/
def letIn (gate : Gate) (free : Nat) (x : Exchange Handler) (s : Session) : Session :=
  record (.entered gate x) (s.setPermits gate free)

/-- What is counted behind a gate. -/
def samplesOf (gate : Gate) (handed : Dispatched) : List Metric :=
  match gate with
  | .pipeline => [.outcome (outcomeOf handed), .duration]
  | .direct => []

/-- A gate takes a permit back from the dispatch of an exchange, which hands this back. -/
def release (gate : Gate) (x : Exchange Handler) (handed : Dispatched) (s : Session) : Session :=
  record (.left gate x handed)
    ((s.sample (samplesOf gate handed)).setPermits gate (s.permits gate + 1))

def turnAway (gate : Gate) (x : Exchange Handler) (s : Session) : Session :=
  record (.turnedAway gate x) (s.sample [.shed (admissionOf x)])

/-- One thing that a session does. -/
inductive Move : Session → Session → Prop where
  /-- The deployment takes a step that has nothing to do with modules. -/
  | deploys {s : Session} {e : Deployment} (step : Deployment.Step s.deployment e)
      (modules_eq : e.modules = s.deployment.modules) : Move s { s with deployment := e }
  | registers {s : Session} {module : Module} {id : NodeId} {e : Deployment}
      (accepted : s.deployment.registerModule module = (.ok id, e)) :
      Move s { s with deployment := e }
  | beginsSetup {s : Session} {name : String} {m : RegisteredModule}
      (registered : s.deployment.module? name = some m) (pending : m.status = .pending) :
      Move s (s.beginSetup name)
  | endsSetup {s : Session} {name : String} {m : RegisteredModule} (verdict : Verdict)
      (registered : s.deployment.module? name = some m) (running : m.status = .running) :
      Move s (s.endSetup name verdict)
  /-- Exchanges are opened, taken out and put back, and chains are kept. -/
  | files {s : Session} (exchanges : Dict (Exchange Handler)) (handles : Dict Nat)
      (heldChains : Dict (Chain Handler)) (nextExchange : Nat) :
      Move s { s with exchanges, handles, heldChains, nextExchange }
  | trips {s : Session} (id : Nat) : Move s (s.trip id)
  | invokes {s : Session} {id : Nat} (link : Link Handler)
      (unrequested : s.isTripped id = false) : Move s (s.record (.invoked id link))
  | admits {s : Session} {gate : Gate} {free : Nat} (x : Exchange Handler)
      (available : s.permits gate = free + 1) : Move s (s.letIn gate free x)
  | releases {s : Session} (gate : Gate) (x : Exchange Handler) (handed : Dispatched) :
      Move s (s.release gate x handed)
  | turnsAway {s : Session} {gate : Gate} (x : Exchange Handler) (full : s.permits gate = 0) :
      Move s (s.turnAway gate x)
  | notes {s : Session} {event : Event} (plain : event.Plain) : Move s (s.record event)

/-- Any number of moves. -/
abbrev Moves : Session → Session → Prop :=
  Relation.ReflTransGen Move

/-- Moves of a session take its deployment through steps. -/
theorem Moves.steps (h : Moves s t) :
    Relation.ReflTransGen Deployment.Step s.deployment t.deployment := by
  induction h with
  | refl => exact .refl
  | tail _ hmove ih =>
    cases hmove with
    | deploys step _ => exact ih.tail step
    | registers accepted => exact ih.tail (.registerModule accepted)
    | beginsSetup registered pending => exact ih.tail (.initBegins registered pending)
    | endsSetup verdict registered running => exact ih.tail (.initEnds _ registered running)
    | _ => exact ih

/-- A move writes into the journal what it has to say, and takes nothing out. -/
theorem Move.exists_new (h : Move s t) : ∃ new, t.events = s.events ++ new := by
  cases h with
  | deploys => exact ⟨[], (List.append_nil _).symm⟩
  | registers => exact ⟨[], (List.append_nil _).symm⟩
  | files => exact ⟨[], (List.append_nil _).symm⟩
  | _ => exact ⟨_, events_record _ _⟩

/-- **What is added to the journal** is known from single moves, also in what it has to do with the
    sessions before and behind it. -/
theorem Moves.told {Q : Session → List Event → Session → Prop} (hnil : ∀ s, Q s [] s)
    (happend : ∀ {s t u new more}, Q s new t → Q t more u → Q s (new ++ more) u)
    (hmove : ∀ {s t}, Move s t → ∃ new, t.events = s.events ++ new ∧ Q s new t) (h : Moves s t) :
    ∃ new, t.events = s.events ++ new ∧ Q s new t := by
  induction h with
  | refl => exact ⟨[], (List.append_nil _).symm, hnil s⟩
  | tail _ hlast ih =>
    obtain ⟨new, hnew, hq⟩ := ih
    obtain ⟨more, hmore, hq'⟩ := hmove hlast
    exact ⟨new ++ more, by rw [hmore, hnew, List.append_assoc], happend hq hq'⟩

theorem Moves.exists_new (h : Moves s t) : ∃ new, t.events = s.events ++ new := by
  obtain ⟨new, hnew, -⟩ := h.told (Q := fun _ _ _ => True) (fun _ => trivial)
    (fun _ _ => trivial) fun hmove => hmove.exists_new.imp fun _ hnew => ⟨hnew, trivial⟩
  exact ⟨new, hnew⟩

/-! ### Steps of the deployment -/

/-- A step that is refused leaves the session alone; one that is accepted changes its deployment. -/
theorem change_cases {α : Type} {step : Deployment → Except ConfigError (α × Deployment)}
    {result : Except ConfigError α} (h : (change step).run s = .ok (result, t)) :
    (∃ error, result = .error error ∧ t = s) ∨
      ∃ a e, result = .ok a ∧ step s.deployment = .ok (a, e) ∧ t = { s with deployment := e } := by
  obtain ⟨_, _, hget, h⟩ := run_bind_ok.1 h
  cases hget
  cases hstep : step s.deployment with
  | error error =>
    simp only [hstep] at h
    cases h
    exact Or.inl ⟨error, rfl, rfl⟩
  | ok changed =>
    simp only [hstep] at h
    cases h
    exact Or.inr ⟨changed.1, changed.2, rfl, rfl, rfl⟩

theorem run_change {α : Type} (step : Deployment → Except ConfigError (α × Deployment)) {a : α}
    {e : Deployment} (h : step s.deployment = .ok (a, e)) :
    (change step).run s = .ok (.ok a, { s with deployment := e }) := by
  refine run_bind_ok.2 ⟨s, s, rfl, ?_⟩
  simp only [h]
  rfl

theorem run_change_of_error {α : Type} (step : Deployment → Except ConfigError (α × Deployment))
    {error : ConfigError} (h : step s.deployment = .error error) :
    (change step).run s = .ok (.error error, s) := by
  refine run_bind_ok.2 ⟨s, s, rfl, ?_⟩
  simp only [h]
  rfl

theorem run_changeOnly (step : Deployment → Except ConfigError Deployment) {e : Deployment}
    (h : step s.deployment = .ok e) :
    (changeOnly step).run s = .ok (.ok (), { s with deployment := e }) :=
  run_change _ (by rw [h]; rfl)

/-- A step that changes something in any case changes the deployment. -/
theorem take_ok {α : Type} {step : Deployment → α × Deployment} {a : α}
    (h : (take step).run s = .ok (a, t)) :
    ∃ e, step s.deployment = (a, e) ∧ t = { s with deployment := e } := by
  cases h
  exact ⟨_, rfl, rfl⟩

theorem run_take {α : Type} {step : Deployment → α × Deployment} {a : α} {e : Deployment}
    (h : step s.deployment = (a, e)) : (take step).run s = .ok (a, { s with deployment := e }) := by
  have hrun : (take step).run s =
    .ok ((step s.deployment).1, { s with deployment := (step s.deployment).2 }) := rfl
  rw [hrun, h]

/-! ### Setups -/

/-- A setup from its beginning in `s` to its end in `t`: the module was pending, its own program ran
    between, and besides what that did only the status of the module has changed. -/
def SetsUp (inner : Inner) (name : String) (verdict : Verdict) (s t : Session) : Prop :=
  ∃ m u, s.deployment.module? name = some m ∧ m.status = .pending ∧
    (inner.carryOut (m.module.init m.attempts)).run (s.beginSetup name) = .ok (verdict, u) ∧
    t = u.endSetup name verdict

/-- A module is set up once; where it is ready, or not there, nothing happens. -/
theorem initModule_cases {name : String} {result : Except DeploymentError Unit}
    (hrun : (initModule inner name).run s = .ok (result, t)) :
    (s.deployment.module? name = none ∧ result = .error (.config (.unknownModule name)) ∧ t = s) ∨
      (s.deployment.isReady name = true ∧ result = .ok () ∧ t = s) ∨
      ∃ verdict, SetsUp inner name verdict s t ∧ result = verdict.mapError (.moduleInit name) := by
  obtain ⟨_, _, hget, hrun⟩ := run_bind_ok.1 hrun
  cases hget
  cases hm : s.deployment.module? name with
  | none =>
    simp only [hm] at hrun
    cases hrun
    exact Or.inl ⟨rfl, rfl, rfl⟩
  | some m =>
    simp only [hm] at hrun
    right
    cases hstatus : m.status with
    | ready =>
      simp only [hstatus] at hrun
      cases hrun
      exact Or.inl ⟨Deployment.isReady_iff.2 ⟨m, hm, hstatus⟩, rfl, rfl⟩
    | running =>
      simp only [hstatus] at hrun
      cases hrun
    | pending =>
      simp only [hstatus] at hrun
      obtain ⟨_, _, hbegun, hrun⟩ := run_bind_ok.1 hrun
      cases hbegun
      obtain ⟨_, _, hnoted, hrun⟩ := run_bind_ok.1 hrun
      cases hnoted
      obtain ⟨verdict, u, hinit, hrun⟩ := run_bind_ok.1 hrun
      refine Or.inr ⟨verdict, ⟨m, u, hm, hstatus, hinit, ?_⟩, ?_⟩
      · cases verdict <;> cases hrun <;> rfl
      · cases verdict <;> cases hrun <;> rfl

theorem run_initModule_of_unknown {name : String} (h : s.deployment.module? name = none) :
    (initModule inner name).run s = .ok (.error (.config (.unknownModule name)), s) := by
  refine run_bind_ok.2 ⟨s, s, rfl, ?_⟩
  simp only [h]
  rfl

theorem run_initModule_of_ready {name : String} (h : s.deployment.isReady name = true) :
    (initModule inner name).run s = .ok (.ok (), s) := by
  obtain ⟨m, hm, hstatus⟩ := Deployment.isReady_iff.1 h
  refine run_bind_ok.2 ⟨s, s, rfl, ?_⟩
  simp only [hm, hstatus]
  rfl

theorem SetsUp.run_initModule {name : String} {verdict : Verdict} (h : SetsUp inner name verdict s t) :
    (initModule inner name).run s = .ok (verdict.mapError (.moduleInit name), t) := by
  obtain ⟨m, u, hm, hstatus, hinit, rfl⟩ := h
  refine run_bind_ok.2 ⟨s, s, rfl, ?_⟩
  simp only [hm, hstatus]
  refine run_bind_ok.2 ⟨(), _, rfl, run_bind_ok.2 ⟨(), _, rfl, run_bind_ok.2 ⟨verdict, u, hinit, ?_⟩⟩⟩
  cases verdict <;> rfl

/-! ### Engagements -/

theorem run_engage_of_unknown {module : String} {scope : Scope}
    (hm : s.deployment.module? module = none) :
    (engage inner module scope).run s = .ok (.error (.config (.unknownModule module)), s) := by
  refine run_bind_ok.2 ⟨s, s, rfl, ?_⟩
  simp only [hm]
  rfl

theorem run_engage_of_lost {module : String} {scope : Scope} {m : RegisteredModule}
    {error : ConfigError} (hm : s.deployment.module? module = some m)
    (hs : s.deployment.tree.scopeNode scope = .error error) :
    (engage inner module scope).run s = .ok (.error (.config error), s) := by
  refine run_bind_ok.2 ⟨s, s, rfl, ?_⟩
  simp only [hm, hs]
  rfl

/-- What an engagement does when the setup of the module has come to this. -/
def engageAfter (module : String) (scope : Scope) :
    Except DeploymentError Unit → Doing (Except DeploymentError Bool)
  | .error error => return .error error
  | .ok () => return (← take fun d => d.engage module scope).mapError .config

/-- Where module and scope are there, the module is set up before it is engaged. -/
theorem run_engage_of_named {module : String} {scope : Scope} {m : RegisteredModule} {id : NodeId}
    (hm : s.deployment.module? module = some m) (hs : s.deployment.tree.scopeNode scope = .ok id) :
    (engage inner module scope).run s =
      (initModule inner module >>= engageAfter module scope).run s := by
  simp only [engage, StateT.run_bind, StateT.run_get, pure_bind, hm, Option.isNone_some,
    Bool.false_eq_true, if_false, hs]
  rfl

theorem run_engage_of_failure {module : String} {scope : Scope} {m : RegisteredModule} {id : NodeId}
    {error : DeploymentError} (hm : s.deployment.module? module = some m)
    (hs : s.deployment.tree.scopeNode scope = .ok id)
    (hinit : (initModule inner module).run s = .ok (.error error, t)) :
    (engage inner module scope).run s = .ok (.error error, t) := by
  rw [run_engage_of_named hm hs]
  exact run_bind_ok.2 ⟨_, _, hinit, rfl⟩

theorem run_engage_of_success {module : String} {scope : Scope} {m : RegisteredModule} {id : NodeId}
    {answer : Except ConfigError Bool} {e : Deployment} (hm : s.deployment.module? module = some m)
    (hs : s.deployment.tree.scopeNode scope = .ok id)
    (hinit : (initModule inner module).run s = .ok (.ok (), t))
    (htried : t.deployment.engage module scope = (answer, e)) :
    (engage inner module scope).run s =
      .ok (answer.mapError .config, { t with deployment := e }) := by
  rw [run_engage_of_named hm hs]
  exact run_bind_ok.2 ⟨_, _, hinit, run_bind_ok.2 ⟨_, _, run_take htried, rfl⟩⟩

/-- An engagement of a module that is ready sets nothing up. -/
theorem run_engage_of_ready (inner : Inner) {module : String} {scope : Scope}
    {answer : Except ConfigError Bool} {e : Deployment}
    (hready : s.deployment.isReady module = true)
    (htried : s.deployment.engage module scope = (answer, e)) :
    (engage inner module scope).run s =
      .ok (answer.mapError .config, { s with deployment := e }) := by
  obtain ⟨m, hm, -⟩ := Deployment.isReady_iff.1 hready
  cases hs : s.deployment.tree.scopeNode scope with
  | error error =>
    simp only [Deployment.engage, hs] at htried
    cases htried
    exact run_engage_of_lost hm hs
  | ok id => exact run_engage_of_success hm hs (run_initModule_of_ready hready) htried

/-- An engagement sets the module up, if it comes so far, and is tried where that has succeeded. -/
theorem engage_cases {module : String} {scope : Scope} {result : Except DeploymentError Bool}
    (hrun : (engage inner module scope).run s = .ok (result, t)) :
    ((∃ error, result = .error error) ∧
        (t = s ∨ ∃ error, (initModule inner module).run s = .ok (.error error, t))) ∨
      ∃ u answer e, (initModule inner module).run s = .ok (.ok (), u) ∧
        u.deployment.engage module scope = (answer, e) ∧
        result = answer.mapError .config ∧ t = { u with deployment := e } := by
  cases hm : s.deployment.module? module with
  | none =>
    rw [run_engage_of_unknown hm] at hrun
    cases hrun
    exact Or.inl ⟨⟨_, rfl⟩, Or.inl rfl⟩
  | some m =>
    cases hs : s.deployment.tree.scopeNode scope with
    | error error =>
      rw [run_engage_of_lost hm hs] at hrun
      cases hrun
      exact Or.inl ⟨⟨_, rfl⟩, Or.inl rfl⟩
    | ok id =>
      rw [run_engage_of_named hm hs] at hrun
      obtain ⟨outcome, u, hinit, hrun⟩ := run_bind_ok.1 hrun
      cases outcome with
      | error error =>
        cases hrun
        exact Or.inl ⟨⟨_, rfl⟩, Or.inr ⟨error, hinit⟩⟩
      | ok done =>
        obtain ⟨answer, _, htake, hdone⟩ := run_bind_ok.1 hrun
        obtain ⟨e, hengage, rfl⟩ := take_ok htake
        cases hdone
        exact Or.inr ⟨u, answer, e, hinit, hengage, rfl, rfl⟩

/-! ### Exchanges -/

theorem run_dispatch_of_full {gate : Gate} {x : Exchange Handler} (hfull : s.permits gate = 0) :
    (dispatch inner gate x).run s = .ok ((.error .overloaded, x), s.turnAway gate x) := by
  simp only [dispatch, limited, StateT.run_bind, StateT.run_get, pure_bind, hfull]
  rfl

/-- Where a permit is free, the call behind the gate decides what becomes of a dispatch. -/
theorem run_dispatch_of_free {gate : Gate} {free : Nat} {x : Exchange Handler}
    (hfree : s.permits gate = free + 1) :
    (dispatch inner gate x).run s =
      ((startOrResume inner x).run (s.letIn gate free x)).map fun result =>
        let handed : Dispatched := (result.1.1.mapError .failed, result.1.2)
        (handed, result.2.release gate x handed) := by
  have hletIn : (dispatch inner gate x).run s =
      (behind inner gate x >>= fun handed => do
        modify fun s => s.setPermits gate (s.permits gate + 1)
        modify (record (.left gate x handed))
        return handed : Doing Dispatched).run (s.letIn gate free x) := by
    simp only [dispatch, limited, StateT.run_bind, StateT.run_get, pure_bind, hfree]
    rfl
  rw [hletIn]
  cases gate with
  | direct =>
    simp only [behind, driving, StateT.run_bind]
    cases (startOrResume inner x).run (s.letIn .direct free x) <;> rfl
  | pipeline =>
    simp only [behind, measured, driving, StateT.run_bind]
    cases (startOrResume inner x).run (s.letIn .pipeline free x) <;> rfl

/-- A dispatch is turned away where no permit is free; elsewhere it takes one for the time of the
    walk. -/
theorem dispatch_cases {gate : Gate} {x : Exchange Handler} {handed : Dispatched}
    (hrun : (dispatch inner gate x).run s = .ok (handed, t)) :
    (s.permits gate = 0 ∧ handed = (.error .overloaded, x) ∧ t = s.turnAway gate x) ∨
      ∃ free driven u, s.permits gate = free + 1 ∧
        (startOrResume inner x).run (s.letIn gate free x) = .ok (driven, u) ∧
        handed = (driven.1.mapError .failed, driven.2) ∧ t = u.release gate x handed := by
  cases hpermits : s.permits gate with
  | zero =>
    rw [run_dispatch_of_full hpermits] at hrun
    cases hrun
    exact Or.inl ⟨rfl, rfl, rfl⟩
  | succ free =>
    rw [run_dispatch_of_free hpermits] at hrun
    cases hdriven : (startOrResume inner x).run (s.letIn gate free x) with
    | error halt =>
      rw [hdriven] at hrun
      cases hrun
    | ok result =>
      rw [hdriven] at hrun
      cases hrun
      exact Or.inr ⟨free, result.1, result.2, rfl, hdriven, rfl, rfl⟩

theorem run_withExchange_absent {name : String} (h : Dict.find? name s.exchanges = none)
    (operation : Exchange Handler → Doing (Reply × Exchange Handler)) :
    (withExchange name operation).run s = .ok (.refused .noExchange, s) := by
  simp only [withExchange, StateT.run_bind, StateT.run_get, pure_bind, h]
  rfl

theorem run_withExchange_resting {name : String} {x : Exchange Handler}
    (h : Dict.find? name s.exchanges = some x)
    (operation : Exchange Handler → Doing (Reply × Exchange Handler)) :
    (withExchange name operation).run s =
      ((operation x).run { s with exchanges := Dict.erase name s.exchanges }).map fun result =>
        (result.1.1,
          { result.2 with exchanges := Dict.insert name result.1.2 result.2.exchanges }) := by
  simp only [withExchange, StateT.run_bind, StateT.run_get, pure_bind, h]
  show (operation x).run { s with exchanges := Dict.erase name s.exchanges } >>= _ = _
  cases (operation x).run { s with exchanges := Dict.erase name s.exchanges } <;> rfl

/-- An exchange that an operation is performed on is not among the others meanwhile. -/
theorem withExchange_cases {name : String}
    {operation : Exchange Handler → Doing (Reply × Exchange Handler)} {reply : Reply}
    (hrun : (withExchange name operation).run s = .ok (reply, t)) :
    (Dict.find? name s.exchanges = none ∧ reply = .refused .noExchange ∧ t = s) ∨
      ∃ x y u, Dict.find? name s.exchanges = some x ∧
        (operation x).run { s with exchanges := Dict.erase name s.exchanges } =
          .ok ((reply, y), u) ∧
        t = { u with exchanges := Dict.insert name y u.exchanges } := by
  cases hx : Dict.find? name s.exchanges with
  | none =>
    rw [run_withExchange_absent hx] at hrun
    cases hrun
    exact Or.inl ⟨rfl, rfl, rfl⟩
  | some x =>
    rw [run_withExchange_resting hx] at hrun
    cases hop : (operation x).run { s with exchanges := Dict.erase name s.exchanges } with
    | error halt =>
      rw [hop] at hrun
      cases hrun
    | ok result =>
      obtain ⟨⟨answer, y⟩, u⟩ := result
      rw [hop] at hrun
      cases hrun
      exact Or.inr ⟨x, y, u, rfl, hop, rfl⟩

end Session

end ExchangePipeline
