/-
  ExchangePipeline/Proofs/Session/Advancing.lean
  ==============================================
  **Performing a request makes moves.**

  Whatever a session does on behalf of its users, it advances: it makes moves, and
  a setup that is under way stays under way until the one who began it ends it
  (`Advances`).  This holds of every request and, by induction on the levels, of
  every program, whatever it asks for in turn (`keeps_perform`, `keeping_nested`).
  So what one move keeps is kept by everything that a session is asked for.
-/
import ExchangePipeline.Proofs.Session.Requests

namespace ExchangePipeline

namespace Session

/-! ### Advancing -/

/-- A later moment of a session.  It is reached in moves, and the modules whose setup was under way
    are as they were. -/
structure Advances (s t : Session) : Prop where
  moves : Moves s t
  running : ∀ name m, s.deployment.module? name = some m → m.status = .running →
    t.deployment.module? name = some m

variable {s t u : Session}

instance : IsPreorder Session Advances where
  refl _ := ⟨.refl, fun _ _ hm _ => hm⟩
  trans _ _ _ h h' :=
    ⟨h.moves.trans h'.moves, fun name m hm hr => h'.running name m (h.running name m hm hr) hr⟩

theorem Advances.refl (s : Session) : s.Advances s :=
  refl_of Advances s

theorem Advances.trans (h : s.Advances t) (h' : t.Advances u) : s.Advances u :=
  trans_of Advances h h'

/-- A move that leaves the modules alone. -/
theorem Advances.single (h : Move s t) (hmodules : t.deployment.modules = s.deployment.modules) :
    s.Advances t := by
  refine ⟨.single h, fun name m hm _ => ?_⟩
  rw [Deployment.module?, hmodules]
  exact hm

theorem Advances.deploys {e : Deployment} (h : s.deployment.Changes e) :
    s.Advances { s with deployment := e } :=
  .single (.deploys h.step h.modules_eq) h.modules_eq

theorem Advances.registers {module : Module} {result : Except ConfigError NodeId} {e : Deployment}
    (h : s.deployment.registerModule module = (result, e)) :
    s.Advances { s with deployment := e } := by
  cases result with
  | error error =>
    rw [Deployment.registerModule_error h]
    exact .refl s
  | ok id =>
    refine ⟨.single (.registers h), ?_⟩
    obtain ⟨-, tree, -, rfl⟩ := Deployment.registerModule_ok h
    intro name m hm _
    have happend := Deployment.module?_append (d := s.deployment)
      { module, attempts := 0, status := .pending } name
    rw [hm, Option.some_or] at happend
    exact happend

/-- A setup that begins touches no setup that is under way. -/
theorem Advances.beginsSetup {name : String} {m : RegisteredModule}
    (hm : s.deployment.module? name = some m) (hp : m.status = .pending) :
    s.Advances (s.beginSetup name) := by
  refine ⟨.single (.beginsSetup hm hp), ?_⟩
  intro other m' hm' hr
  refine (Deployment.module?_beginInit_of_ne ?_).trans hm'
  rintro rfl
  rw [hm, Option.some.injEq] at hm'
  rw [← hm', hp] at hr
  cases hr

/-- The setup that was begun is found under way where it ends. -/
theorem Advances.module?_beginSetup {name : String} {m : RegisteredModule}
    (hm : s.deployment.module? name = some m) (h : (s.beginSetup name).Advances t) :
    t.deployment.module? name = some { m with attempts := m.attempts + 1, status := .running } :=
  h.running name _ (Deployment.module?_beginInit hm) rfl

/-- A setup from its beginning to its end, with all that it asks for between. -/
theorem Advances.endsSetup {name : String} {m : RegisteredModule}
    (hm : s.deployment.module? name = some m) (hp : m.status = .pending)
    (h : (s.beginSetup name).Advances t) (verdict : Verdict) :
    s.Advances (t.endSetup name verdict) := by
  have hbegins := Advances.beginsSetup hm hp
  refine ⟨(hbegins.moves.trans h.moves).tail (.endsSetup verdict (h.module?_beginSetup hm) rfl), ?_⟩
  intro other m' hm' hr
  refine (Deployment.module?_endInit_of_ne ?_ _).trans ((hbegins.trans h).running other m' hm' hr)
  rintro rfl
  rw [hm, Option.some.injEq] at hm'
  rw [← hm', hp] at hr
  cases hr

/-! ### Single moves -/

theorem keeps_move {f : Session → Session} (hf : ∀ s, Move s (f s))
    (hmodules : ∀ s, (f s).deployment.modules = s.deployment.modules) :
    Keeps Advances (modify f) :=
  Keeps.modify fun s => .single (hf s) (hmodules s)

theorem keeps_note {event : Event} (h : event.Plain) : Keeps Advances (modify (record event)) :=
  keeps_move (fun _ => .notes h) fun _ => rfl

theorem keeps_trip (id : Nat) : Keeps Advances (modify (trip id)) :=
  keeps_move (fun _ => .trips id) fun _ => rfl

theorem keeps_take {α : Type} {step : Deployment → α × Deployment}
    (h : ∀ (s : Session) a e, step s.deployment = (a, e) → s.Advances { s with deployment := e }) :
    Keeps Advances (take step) := by
  intro s a t hrun
  obtain ⟨e, hstep, rfl⟩ := take_ok hrun
  exact h s a e hstep

variable {inner : Inner}

/-! ### Exchanges -/

theorem keeping_host (h : inner.Keeping Advances) : (host inner).Keeping Advances where
  chainFor := keeps_chainFor .deploys
  invoke := h.invoke
  requestCancel _ _ := .single (.trips _) rfl

theorem keeps_withExchange (name : String)
    {operation : Exchange Handler → Doing (Reply × Exchange Handler)}
    (h : ∀ x, Keeps Advances (operation x)) : Keeps Advances (withExchange name operation) := by
  intro s reply t hrun
  obtain ⟨-, -, rfl⟩ | ⟨x, y, u, -, hop, rfl⟩ := withExchange_cases hrun
  · exact .refl _
  · have htaken : s.Advances { s with exchanges := Dict.erase name s.exchanges } :=
      .single (.files _ _ _ _) rfl
    exact (htaken.trans (h x _ _ _ hop)).trans (.single (.files _ _ _ _) rfl)

theorem keeps_dispatch (h : inner.Keeping Advances) (gate : Gate) (x : Exchange Handler) :
    Keeps Advances (dispatch inner gate x) := by
  intro s result t hrun
  obtain ⟨hfull, -, rfl⟩ | ⟨free, driven, u, hfree, hdriven, -, rfl⟩ := dispatch_cases hrun
  · exact .single (.turnsAway _ hfull) rfl
  · have hadmitted : s.Advances (s.letIn gate free x) := .single (.admits _ hfree) rfl
    have hwalked := hadmitted.trans (keeps_startOrResume (keeping_host h) x _ _ _ hdriven)
    exact hwalked.trans (.single (.releases ..) rfl)

theorem keeps_dispatchNamed (h : inner.Keeping Advances) (gate : Gate) (name : String) :
    Keeps Advances (dispatchNamed inner gate name) := by
  apply keeps_withExchange name
  intro x
  exact Keeps.bind (keeps_dispatch h gate x) fun _ => Keeps.bind Keeps.get fun _ => Keeps.pure _

/-! ### Modules -/

theorem SetsUp.advances (h : inner.Keeping Advances) {name : String} {verdict : Verdict}
    (hsetup : SetsUp inner name verdict s t) : s.Advances t := by
  obtain ⟨m, u, hm, hp, hinit, rfl⟩ := hsetup
  exact .endsSetup hm hp (h.carryOut _ _ _ _ hinit) verdict

/-- A setup that succeeds leaves the module ready. -/
theorem SetsUp.isReady (h : inner.Keeping Advances) {name : String}
    (hsetup : SetsUp inner name (.ok ()) s t) : t.deployment.isReady name = true := by
  obtain ⟨m, u, hm, -, hinit, rfl⟩ := hsetup
  have hinside : (s.beginSetup name).Advances u := h.carryOut _ _ _ _ hinit
  have hended := Deployment.module?_endInit (hinside.module?_beginSetup hm) .ready
  exact Deployment.isReady_iff.2 ⟨_, hended, rfl⟩

/-- **Setting a module up** makes moves, and a success leaves it ready. -/
theorem initModule_ok (h : inner.Keeping Advances) {name : String}
    {result : Except DeploymentError Unit} (hrun : (initModule inner name).run s = .ok (result, t)) :
    s.Advances t ∧ (result = .ok () → t.deployment.isReady name = true) := by
  obtain ⟨-, rfl, rfl⟩ | ⟨hready, -, rfl⟩ | ⟨verdict, hsetup, rfl⟩ := initModule_cases hrun
  · exact ⟨.refl _, fun hresult => by cases hresult⟩
  · exact ⟨.refl _, fun _ => hready⟩
  · refine ⟨hsetup.advances h, fun hresult => ?_⟩
    cases verdict with
    | error cause => cases hresult
    | ok done => exact hsetup.isReady h

theorem keeps_initModule (h : inner.Keeping Advances) (name : String) :
    Keeps Advances (initModule inner name) :=
  fun _ _ _ hrun => (initModule_ok h hrun).1

/-- A module is engaged only when it is ready. -/
theorem keeps_engage (h : inner.Keeping Advances) (module : String) (scope : Scope) :
    Keeps Advances (engage inner module scope) := by
  intro s result t hrun
  obtain ⟨-, rfl | ⟨error, hinit⟩⟩ | ⟨u, answer, e, hinit, hengage, -, rfl⟩ := engage_cases hrun
  · exact .refl _
  · exact (initModule_ok h hinit).1
  obtain ⟨hsetup, hready⟩ := initModule_ok h hinit
  cases answer with
  | error error =>
    rw [Deployment.engage_error hengage]
    exact hsetup
  | ok added => exact hsetup.trans (.deploys (.engage (hready rfl) hengage))

/-! ### Everything -/

theorem Advances.cacheAll (keys : List ChainKey) (s : Session) :
    s.Advances { s with deployment := (Deployment.cacheAll keys s.deployment).2 } := by
  induction keys generalizing s with
  | nil => exact .refl s
  | cons key rest ih =>
    rw [Deployment.cacheAll]
    cases hc : s.deployment.chain key with
    | error error => exact .refl s
    | ok result => exact (Advances.deploys (.chain hc)).trans (ih { s with deployment := result.2 })

theorem keeps_resolveAll : Keeps Advances resolveAll := by
  refine keeps_take fun s result e h => ?_
  cases h
  exact .cacheAll _ s

/-- All that requests are made of makes moves, if programs do. -/
theorem pervades_advances (h : inner.Keeping Advances) :
    PervadesAll fun _ act => Keeps Advances (act inner) where
  pure := Keeps.pure
  bind := Keeps.bind
  look hnext _ := Keeps.bind Keeps.get hnext
  notes := keeps_note
  trips := keeps_trip
  opens _ _ _ _ _ _ := keeps_move (fun _ => .files _ _ _ _) fun _ => rfl
  holds _ _ := keeps_move (fun _ => .files _ _ _ _) fun _ => rfl
  asks _ := keeps_change .deploys fun _ _ _ hstep => .chain hstep
  changes := keeps_change .deploys
  declares _ _ _ := keeps_take fun _ _ _ hstep => .deploys (.addHandler hstep)
  registers _ := keeps_take fun _ _ _ hstep => .registers hstep
  connects role t := Keeps.modify fun s => .deploys (.registerTransport s.deployment role t)
  resolvesAll := keeps_resolveAll
  setsUp := keeps_initModule h
  engages := keeps_engage h
  carriesOut := h.carryOut
  operates name op := keeps_withExchange name (keeps_performOn (keeping_host h) op)
  dispatches := keeps_dispatchNamed h

/-- **Every request** makes moves, if programs do. -/
theorem keeps_perform (h : inner.Keeping Advances) (request : Request) :
    Keeps Advances (perform inner request) :=
  (pervades_advances h).perform request

/-- **Programs** make moves, however deep they are nested. -/
theorem keeping_nested (depth : Nat) : (nested depth).Keeping Advances :=
  keeping_of_requests (fun _ _ link hfree => .single (.invokes link hfree) rfl)
    (fun _ h => keeping_host h) (fun _ h => keeps_perform h) depth

/-- A handler takes the deployment through steps, also where it should not have been invoked. -/
theorem steps_invoke {depth : Nat} {link : Link Handler} {x : Exchange Handler}
    {result : Outcome × Exchange Handler}
    (hrun : ((nested depth).invoke link x).run s = .ok (result, t)) :
    Relation.ReflTransGen Deployment.Step s.deployment t.deployment := by
  cases depth with
  | zero => cases hrun
  | succ depth =>
    obtain ⟨_, _, hrecorded, hbody⟩ := run_bind_ok.1 hrun
    cases hrecorded
    have hanswer := keeps_answer (keeping_host (keeping_nested depth))
      (keeps_perform (keeping_nested depth))
    exact (Keeps.program_beside hanswer link.body x _ _ _ hbody).moves.steps

end Session

end ExchangePipeline
