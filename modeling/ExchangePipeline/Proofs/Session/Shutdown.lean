/-
  ExchangePipeline/Proofs/Session/Shutdown.lean
  =============================================
  **What a shutdown reaches.**

  A shutdown stops the listeners and then the senders that are registered when it
  begins, each in reverse registration order and whatever becomes of each stop.  The
  modules come after that, in reverse registration order as well, but only up to the
  first that fails: those that were registered before it are left out.  `Closes` lists
  these courses, and those in which outside code gives no result (`shutdown_course`).

  Where the outside code asks for nothing but notes, the course is a computed one
  (`run_shutdown_of_quiet`), and every module is reached exactly when none fails but
  perhaps the one that was registered first (`reached_eq_self_iff`).
-/
import ExchangePipeline.Proofs.Session.Bootstrap

namespace ExchangePipeline

open Session

namespace Session

variable {inner : Inner} {s t u v : Session} {name : String}

/-- A program that is told of in the journal before it runs only moves the session on. -/
theorem advances_of_announced (h : inner.Keeping Advances) (event : Event)
    (hplain : event.Plain) {p : Procedure} {verdict : Verdict}
    (hrun : (inner.carryOut p).run (s.record event) = .ok (verdict, t)) : s.Advances t := by
  have hnoted : s.Advances (s.record event) := .single (.notes hplain) rfl
  exact hnoted.trans (h.carryOut _ _ _ _ hrun)

/-! ### Stopping transports in turn -/

/-- A transport is stopped, and it does not matter what becomes of that. -/
def Stops (inner : Inner) (role : TransportRole) (tr : RegisteredTransport) (s t : Session) : Prop :=
  ∃ verdict, (inner.carryOut tr.side.stop).run
    (s.record (.transportStopped role tr.endpoint)) = .ok (verdict, t)

/-- The program that stops a transport gives no result. -/
def StopHalts (inner : Inner) (role : TransportRole) (tr : RegisteredTransport) (halt : Halt)
    (s : Session) : Prop :=
  (inner.carryOut tr.side.stop).run
    (s.record (.transportStopped role tr.endpoint)) = .error halt

theorem Stops.advances (h : inner.Keeping Advances) {role : TransportRole}
    {tr : RegisteredTransport} (hstops : Stops inner role tr s t) : s.Advances t := by
  rcases hstops with ⟨verdict, hrun⟩
  exact advances_of_announced h (.transportStopped role tr.endpoint) trivial hrun

/-- The loop over transports stops all, unless a program gives no result. -/
theorem stopEach_course (inner : Inner) (role : TransportRole)
    (transports : List RegisteredTransport) (s : Session) :
    (∃ t, InTurn (Stops inner role) transports s t ∧
        (stopEach inner role transports).run s = .ok ((), t)) ∨
      ∃ tr rest halt u, Partway (Stops inner role) transports s (tr :: rest) u ∧
        StopHalts inner role tr halt u ∧ (stopEach inner role transports).run s = .error halt := by
  have hcourse := inTurn_or_halts (fun tr : RegisteredTransport => do
      modify (record (.transportStopped role tr.endpoint))
      inner.carryOut tr.side.stop) (stopEach inner role) (fun _ done => done) rfl
      (by simp [stopEach]) transports s
  rcases hcourse with ⟨⟨⟩, t, hturn, hrun⟩ | hhalts
  · exact Or.inl ⟨t, hturn, hrun⟩
  · exact Or.inr hhalts

/-- All listeners are stopped and then all senders that there were at the beginning, unless a program
    gives no result. -/
theorem stopTransports_course (inner : Inner) (s : Session) :
    (∃ u v, InTurn (Stops inner .listener) s.deployment.listeners.reverse s u ∧
        InTurn (Stops inner .sender) s.deployment.senders.reverse u v ∧
        (stopTransports inner).run s = .ok ((), v)) ∨
      (∃ tr rest halt u,
        Partway (Stops inner .listener) s.deployment.listeners.reverse s (tr :: rest) u ∧
        StopHalts inner .listener tr halt u ∧ (stopTransports inner).run s = .error halt) ∨
      ∃ tr rest halt u v, InTurn (Stops inner .listener) s.deployment.listeners.reverse s u ∧
        Partway (Stops inner .sender) s.deployment.senders.reverse u (tr :: rest) v ∧
        StopHalts inner .sender tr halt v ∧ (stopTransports inner).run s = .error halt := by
  have hget : (get : Doing Session).run s = .ok (s, s) := rfl
  rcases stopEach_course inner .listener s.deployment.listeners.reverse s with
    ⟨u, hlisteners, hfirst⟩ | ⟨tr, rest, halt, u, hpart, hhalts, hfirst⟩
  · rcases stopEach_course inner .sender s.deployment.senders.reverse u with
      ⟨v, hsenders, hsecond⟩ | ⟨tr, rest, halt, v, hpart, hhalts, hsecond⟩
    · have hstops : (stopTransports inner).run s = .ok ((), v) :=
        run_bind_ok.2 ⟨s, s, hget, run_bind_ok.2 ⟨_, u, hfirst, hsecond⟩⟩
      exact Or.inl ⟨u, v, hlisteners, hsenders, hstops⟩
    · have hstops : (stopTransports inner).run s = .error halt :=
        run_bind_error.2 (Or.inr ⟨s, s, hget, run_bind_error.2 (Or.inr ⟨_, u, hfirst, hsecond⟩)⟩)
      exact Or.inr (Or.inr ⟨tr, rest, halt, u, v, hlisteners, hpart, hhalts, hstops⟩)
  · have hstops : (stopTransports inner).run s = .error halt :=
      run_bind_error.2 (Or.inr ⟨s, s, hget, run_bind_error.2 (Or.inl hfirst)⟩)
    exact Or.inr (Or.inl ⟨tr, rest, halt, u, hpart, hhalts, hstops⟩)

/-! ### Shutting modules down in turn -/

/-- A module is shut down, with a verdict. -/
def ShutsDown (inner : Inner) (verdict : Verdict) (name : String) (s t : Session) : Prop :=
  ∃ m, s.deployment.module? name = some m ∧
    (inner.carryOut m.module.shutdown).run (s.record (.moduleShutDown name)) = .ok (verdict, t)

/-- The program that shuts a module down gives no result. -/
def ShutdownHalts (inner : Inner) (halt : Halt) (name : String) (s : Session) : Prop :=
  ∃ m, s.deployment.module? name = some m ∧
    (inner.carryOut m.module.shutdown).run (s.record (.moduleShutDown name)) = .error halt

theorem ShutsDown.advances (h : inner.Keeping Advances) {verdict : Verdict}
    (hshuts : ShutsDown inner verdict name s t) : s.Advances t := by
  rcases hshuts with ⟨m, -, hrun⟩
  exact advances_of_announced h (.moduleShutDown name) trivial hrun

theorem run_shutDownEach_cons {m : RegisteredModule} (hm : s.deployment.module? name = some m)
    (rest : List String) :
    (shutDownEach inner (name :: rest)).run s = (inner.carryOut m.module.shutdown >>= fun verdict =>
      match verdict with
      | .error cause => pure (.error cause)
      | .ok () => shutDownEach inner rest).run (s.record (.moduleShutDown name)) := by
  simp only [shutDownEach, StateT.run_bind, StateT.run_get, pure_bind, hm]
  rfl

/-- Shutting a registered module down succeeds, fails, or gives no result. -/
theorem shutsDown_or_halts (inner : Inner) (hname : name ∈ s.deployment.moduleNames) :
    (∃ verdict t, ShutsDown inner verdict name s t ∧ ∀ rest,
        (shutDownEach inner (name :: rest)).run s = match verdict with
          | .error cause => .ok (.error cause, t)
          | .ok () => (shutDownEach inner rest).run t) ∨
      ∃ halt, ShutdownHalts inner halt name s ∧ ∀ rest,
        (shutDownEach inner (name :: rest)).run s = .error halt := by
  obtain ⟨m, hm⟩ := Deployment.mem_moduleNames.1 hname
  cases hrun : (inner.carryOut m.module.shutdown).run (s.record (.moduleShutDown name)) with
  | error halt =>
    refine Or.inr ⟨halt, ⟨m, hm, hrun⟩, fun rest => ?_⟩
    rw [run_shutDownEach_cons hm, StateT.run_bind, hrun]
    rfl
  | ok outcome =>
    refine Or.inl ⟨outcome.1, outcome.2, ⟨m, hm, hrun⟩, fun rest => ?_⟩
    rw [run_shutDownEach_cons hm, StateT.run_bind, hrun]
    rcases outcome with ⟨cause | ⟨⟩, t⟩
    · rfl
    · rfl

/-- The loop over modules shuts all down, ends with the first that fails, or with the first that
    gives no result. -/
theorem shutDownEach_course (h : inner.Keeping Advances) (s : Session) (names : List String)
    (hnames : ∀ name ∈ names, name ∈ s.deployment.moduleNames) :
    (∃ t, InTurn (ShutsDown inner (.ok ())) names s t ∧
        (shutDownEach inner names).run s = .ok (.ok (), t)) ∨
      (∃ name rest cause u t, Partway (ShutsDown inner (.ok ())) names s (name :: rest) u ∧
        ShutsDown inner (.error cause) name u t ∧
        (shutDownEach inner names).run s = .ok (.error cause, t)) ∨
      ∃ name rest halt u, Partway (ShutsDown inner (.ok ())) names s (name :: rest) u ∧
        ShutdownHalts inner halt name u ∧ (shutDownEach inner names).run s = .error halt := by
  induction names generalizing s with
  | nil => exact Or.inl ⟨s, .nil s, rfl⟩
  | cons name rest ih =>
    rcases shutsDown_or_halts inner (hnames name List.mem_cons_self) with
      ⟨cause | ⟨⟩, t, hshuts, hrun⟩ | ⟨halt, hhalts, hrun⟩
    · exact Or.inr (Or.inl ⟨name, rest, cause, s, t, .start _ _, hshuts, hrun rest⟩)
    · -- what was registered still is, so the others can take their turns
      have hrest : ∀ other ∈ rest, other ∈ t.deployment.moduleNames := by
        intro other hother
        obtain ⟨late, hlate, -⟩ := Deployment.moduleNames_of_steps (hshuts.advances h).moves.steps
        rw [hlate]
        exact List.mem_append_left _ (hnames other (List.mem_cons_of_mem _ hother))
      rw [hrun rest]
      rcases ih t hrest with ⟨u, hturn, hdone⟩ | ⟨other, more, cause, u, v, hpart, hfails, hdone⟩ |
        ⟨other, more, halt, u, hpart, hhalts, hdone⟩
      · exact Or.inl ⟨u, .cons hshuts hturn, hdone⟩
      · exact Or.inr (Or.inl ⟨other, more, cause, u, v, hpart.cons hshuts, hfails, hdone⟩)
      · exact Or.inr (Or.inr ⟨other, more, halt, u, hpart.cons hshuts, hhalts, hdone⟩)
    · exact Or.inr (Or.inr ⟨name, rest, halt, s, .start _ _, hhalts, hrun rest⟩)

/-! ### Shutdowns -/

/-- All transports are stopped, from `s` on, and in `v` it is the turn of the modules.  None has
    been lost by then, and no two have the same name. -/
structure Quiets (inner : Inner) (s v : Session) : Prop where
  transports : ∃ u, InTurn (Stops inner .listener) s.deployment.listeners.reverse s u ∧
    InTurn (Stops inner .sender) s.deployment.senders.reverse u v
  registered : ∃ late, v.deployment.moduleNames = s.deployment.moduleNames ++ late
  distinct : v.deployment.moduleNames.Nodup

/-- **The courses of a shutdown** from a session, with what each gives. -/
inductive Closes (inner : Inner) (s : Session) : Except Halt (Verdict × Session) → Prop
  | completes {v t : Session} (quiets : Quiets inner s v)
      (modules : InTurn (ShutsDown inner (.ok ())) v.deployment.moduleNames.reverse v t) :
      Closes inner s (.ok (.ok (), t))
  /-- A module fails, and that is the end: the earlier ones are left out. -/
  | moduleFails {earlier later : List String} {name : String} {cause : Cause} {v u t : Session}
      (quiets : Quiets inner s v)
      (split : v.deployment.moduleNames = earlier ++ name :: later)
      (modules : InTurn (ShutsDown inner (.ok ())) later.reverse v u)
      (fails : ShutsDown inner (.error cause) name u t) :
      Closes inner s (.ok (.error cause, t))
  | listenerHalts {tr : RegisteredTransport} {rest : List RegisteredTransport} {halt : Halt}
      {u : Session}
      (partway : Partway (Stops inner .listener) s.deployment.listeners.reverse s (tr :: rest) u)
      (halts : StopHalts inner .listener tr halt u) : Closes inner s (.error halt)
  | senderHalts {tr : RegisteredTransport} {rest : List RegisteredTransport} {halt : Halt}
      {u v : Session} (listeners : InTurn (Stops inner .listener) s.deployment.listeners.reverse s u)
      (partway : Partway (Stops inner .sender) s.deployment.senders.reverse u (tr :: rest) v)
      (halts : StopHalts inner .sender tr halt v) : Closes inner s (.error halt)
  | moduleHalts {earlier later : List String} {name : String} {halt : Halt} {v u : Session}
      (quiets : Quiets inner s v)
      (split : v.deployment.moduleNames = earlier ++ name :: later)
      (modules : InTurn (ShutsDown inner (.ok ())) later.reverse v u)
      (halts : ShutdownHalts inner halt name u) : Closes inner s (.error halt)

/-- Those that have had a turn, from the last on, come after the rest. -/
theorem split_of_partway {does : String → Session → Session → Prop} {names rest : List String}
    (h : Partway does names.reverse s (name :: rest) t) :
    ∃ earlier later, names = earlier ++ name :: later ∧ InTurn does later.reverse s t := by
  rcases h with ⟨done, hsplit, hdone⟩
  refine ⟨rest.reverse, done.reverse, ?_, by rwa [List.reverse_reverse]⟩
  rw [← List.reverse_reverse names, hsplit]
  simp

theorem run_shutdown_of_stopped (h : (stopTransports inner).run s = .ok ((), v)) :
    (shutdown inner).run s = (shutDownEach inner v.deployment.moduleNames.reverse).run v := by
  rw [shutdown, StateT.run_bind, h]
  rfl

theorem run_shutdown_of_halt {halt : Halt} (h : (stopTransports inner).run s = .error halt) :
    (shutdown inner).run s = .error halt :=
  run_bind_error.2 (Or.inl h)

/-- **A shutdown takes one of these courses.** -/
theorem shutdown_course (h : inner.Keeping Advances) (hn : s.deployment.moduleNames.Nodup) :
    Closes inner s ((shutdown inner).run s) := by
  rcases stopTransports_course inner s with ⟨u, v, hlisteners, hsenders, hstops⟩ |
    ⟨tr, rest, halt, u, hpart, hhalts, hstops⟩ |
    ⟨tr, rest, halt, u, v, hlisteners, hpart, hhalts, hstops⟩
  rotate_left
  · rw [run_shutdown_of_halt hstops]
    exact .listenerHalts hpart hhalts
  · rw [run_shutdown_of_halt hstops]
    exact .senderHalts hlisteners hpart hhalts
  -- all transports are stopped: it is the turn of the modules
  have hadvances : s.Advances v :=
    (hlisteners.keeps (R := Advances) fun _ _ _ hstops => hstops.advances h).trans
      (hsenders.keeps fun _ _ _ hstops => hstops.advances h)
  have hquiets : Quiets inner s v := by
    obtain ⟨late, hlate, -⟩ := Deployment.moduleNames_of_steps hadvances.moves.steps
    exact ⟨⟨u, hlisteners, hsenders⟩, ⟨late, hlate⟩,
      Deployment.nodup_moduleNames_of_steps hadvances.moves.steps hn⟩
  rw [run_shutdown_of_stopped hstops]
  rcases shutDownEach_course h v v.deployment.moduleNames.reverse (by simp) with
    ⟨t, hturn, hdone⟩ | ⟨name, rest, cause, w, t, hpart, hfails, hdone⟩ |
    ⟨name, rest, halt, w, hpart, hhalts, hdone⟩
  · rw [hdone]
    exact .completes hquiets hturn
  · obtain ⟨earlier, later, hsplit, hturn⟩ := split_of_partway hpart
    rw [hdone]
    exact .moduleFails hquiets hsplit hturn hfails
  · obtain ⟨earlier, later, hsplit, hturn⟩ := split_of_partway hpart
    rw [hdone]
    exact .moduleHalts hquiets hsplit hturn hhalts

end Session

/-! ### Outside code that asks for nothing but notes -/

/-- The verdict of a program that asks for nothing but notes. -/
def Program.ownVerdict? : Procedure → Option Verdict
  | .done verdict => some verdict
  | .ask (.note _) next => ownVerdict? (next .done)
  | .ask _ _ => none

/-- All that a shutdown runs asks for nothing but notes. -/
structure Deployment.ClosesQuietly (d : Deployment) : Prop where
  transports : ∀ tr ∈ d.listeners ++ d.senders, ∃ verdict, tr.side.stop.ownVerdict? = some verdict
  modules : ∀ m ∈ d.modules, ∃ verdict, m.module.shutdown.ownVerdict? = some verdict

/-- The modules that a shutdown reaches: those up to the first that fails. -/
def reached : List RegisteredModule → List RegisteredModule
  | [] => []
  | m :: rest => m :: if m.module.shutdown.ownVerdict? = some (.ok ()) then reached rest else []

/-- The first of the modules' verdicts that is a failure, if there is one. -/
def firstFailure (modules : List RegisteredModule) : Verdict :=
  ((modules.filterMap fun m => m.module.shutdown.ownVerdict?).find? fun verdict =>
    !verdict.isOk).getD (.ok ())

theorem firstFailure_cons {m : RegisteredModule} {rest : List RegisteredModule} {verdict : Verdict}
    (h : m.module.shutdown.ownVerdict? = some verdict) :
    firstFailure (m :: rest) = if verdict.isOk then firstFailure rest else verdict := by
  simp only [firstFailure, List.filterMap_cons, h, List.find?_cons]
  cases verdict.isOk with
  | true => simp
  | false => simp

/-- Events that tell that a transport is stopped or a module is shut down. -/
def Event.isClosing : Event → Bool
  | .moduleShutDown _ | .transportStopped _ _ => true
  | _ => false

/-- What a journal tells of transports that are stopped and modules that are shut down. -/
def closingsOf (log : List Event) : List Event :=
  log.filter Event.isClosing

/-- All modules are reached if none but perhaps the last fails. -/
theorem reached_eq_self_iff {modules : List RegisteredModule} :
    reached modules = modules ↔
      ∀ m ∈ modules.dropLast, m.module.shutdown.ownVerdict? = some (.ok ()) := by
  induction modules with
  | nil => simp [reached]
  | cons m rest ih =>
    rw [reached]
    rcases rest with - | ⟨other, rest⟩
    · simp [reached]
    · by_cases hm : m.module.shutdown.ownVerdict? = some (.ok ())
      · simp [hm, ih]
      · simp [hm]

theorem Deployment.module?_of_mem {d : Deployment} (hn : d.moduleNames.Nodup)
    {m : RegisteredModule} (hm : m ∈ d.modules) : d.module? m.module.name = some m := by
  obtain ⟨other, hother⟩ := mem_moduleNames.1 (List.mem_map_of_mem hm)
  rw [module?] at hother ⊢
  have hname := List.find?_some hother
  have hsame := List.inj_on_of_nodup_map hn (List.mem_of_find?_eq_some hother) hm
  rw [hother, hsame (by simpa using hname)]

namespace Session

variable {s : Session}

theorem closingsOf_record (s : Session) {event : Event} (h : event.isClosing = true) :
    closingsOf (s.record event).events = closingsOf s.events ++ [event] := by
  simp [closingsOf, h]

theorem exists_run_of_ownVerdict {p : Procedure} {verdict : Verdict}
    (h : p.ownVerdict? = some verdict) (depth : Nat) (s : Session) :
    ∃ t, ((nested (depth + 1)).carryOut p).run s = .ok (verdict, t) ∧
      t.deployment = s.deployment ∧ closingsOf t.events = closingsOf s.events := by
  induction p generalizing s with
  | done result =>
    cases h
    exact ⟨s, rfl, rfl, rfl⟩
  | ask request next ih =>
    cases request with
    | note note =>
      obtain ⟨t, hrun, hdeployment, hclosings⟩ := ih .done h (s.record (.noted note))
      refine ⟨t, run_bind_ok.2 ⟨.done, _, rfl, hrun⟩, hdeployment, hclosings.trans ?_⟩
      simp [closingsOf, Event.isClosing]
    | _ => cases h

theorem run_stopEach_of_quiet (role : TransportRole) {transports : List RegisteredTransport}
    (h : ∀ tr ∈ transports, ∃ verdict, tr.side.stop.ownVerdict? = some verdict) (depth : Nat)
    (s : Session) :
    ∃ t, (stopEach (nested (depth + 1)) role transports).run s = .ok ((), t) ∧
      t.deployment = s.deployment ∧ closingsOf t.events = closingsOf s.events ++
        transports.map fun tr => .transportStopped role tr.endpoint := by
  induction transports generalizing s with
  | nil => exact ⟨s, rfl, rfl, by simp⟩
  | cons tr rest ih =>
    obtain ⟨verdict, hverdict⟩ := h tr List.mem_cons_self
    obtain ⟨t, hstop, hsame, hsilent⟩ := exists_run_of_ownVerdict hverdict depth
      (s.record (.transportStopped role tr.endpoint))
    obtain ⟨u, hrest, hdeployment, hclosings⟩ :=
      ih (fun other hother => h other (List.mem_cons_of_mem _ hother)) t
    refine ⟨u, ?_, hdeployment.trans hsame, ?_⟩
    · exact run_bind_ok.2 ⟨_, _, rfl, run_bind_ok.2 ⟨verdict, t, hstop, hrest⟩⟩
    · rw [hclosings, hsilent, closingsOf_record s rfl]
      simp

theorem run_shutDownEach_of_quiet {modules : List RegisteredModule}
    (h : ∀ m ∈ modules, ∃ verdict, m.module.shutdown.ownVerdict? = some verdict) (depth : Nat)
    (s : Session) (hs : ∀ m ∈ modules, s.deployment.module? m.module.name = some m) :
    ∃ t, (shutDownEach (nested (depth + 1)) (modules.map fun m => m.module.name)).run s =
        .ok (firstFailure modules, t) ∧
      t.deployment = s.deployment ∧ closingsOf t.events = closingsOf s.events ++
        (reached modules).map fun m => .moduleShutDown m.module.name := by
  induction modules generalizing s with
  | nil => exact ⟨s, rfl, rfl, by simp [reached]⟩
  | cons m rest ih =>
    obtain ⟨verdict, hverdict⟩ := h m List.mem_cons_self
    obtain ⟨t, hrun, hsame, hsilent⟩ := exists_run_of_ownVerdict hverdict depth
      (s.record (.moduleShutDown m.module.name))
    rw [List.map_cons, run_shutDownEach_cons (hs m List.mem_cons_self), StateT.run_bind, hrun]
    rw [firstFailure_cons hverdict]
    rcases verdict with cause | ⟨⟩
    · refine ⟨t, rfl, hsame, ?_⟩
      rw [hsilent, closingsOf_record s rfl]
      simp [reached, hverdict]
    · obtain ⟨u, hrest, hdeployment, hclosings⟩ :=
        ih (fun other hother => h other (List.mem_cons_of_mem _ hother)) t fun other hother => by
          rw [hsame]
          exact hs other (List.mem_cons_of_mem _ hother)
      refine ⟨u, hrest, hdeployment.trans hsame, ?_⟩
      rw [hclosings, hsilent, closingsOf_record s rfl]
      simp [reached, hverdict]

/-- **A quiet shutdown**, computed: all transports are stopped, then the modules are shut down up to
    the first that fails, and its failure is what comes back. -/
theorem run_shutdown_of_quiet (h : s.deployment.ClosesQuietly)
    (hn : s.deployment.moduleNames.Nodup) (depth : Nat) :
    ∃ t, (shutdown (nested (depth + 1))).run s =
        .ok (firstFailure s.deployment.modules.reverse, t) ∧
      closingsOf t.events = closingsOf s.events ++
        (s.deployment.listeners.reverse.map fun tr => .transportStopped .listener tr.endpoint) ++
        (s.deployment.senders.reverse.map fun tr => .transportStopped .sender tr.endpoint) ++
        (reached s.deployment.modules.reverse).map fun m => .moduleShutDown m.module.name := by
  have hlistening : ∀ tr ∈ s.deployment.listeners.reverse, ∃ verdict,
      tr.side.stop.ownVerdict? = some verdict := by
    intro tr htr
    exact h.transports tr (List.mem_append_left _ (List.mem_reverse.1 htr))
  have hsending : ∀ tr ∈ s.deployment.senders.reverse, ∃ verdict,
      tr.side.stop.ownVerdict? = some verdict := by
    intro tr htr
    exact h.transports tr (List.mem_append_right _ (List.mem_reverse.1 htr))
  obtain ⟨u, hlisteners, hsameu, hfirst⟩ := run_stopEach_of_quiet .listener hlistening depth s
  obtain ⟨v, hsenders, hsamev, hsecond⟩ := run_stopEach_of_quiet .sender hsending depth u
  have hsame : v.deployment = s.deployment := hsamev.trans hsameu
  have hfound : ∀ m ∈ s.deployment.modules.reverse,
      v.deployment.module? m.module.name = some m := by
    intro m hm
    rw [hsame]
    exact Deployment.module?_of_mem hn (List.mem_reverse.1 hm)
  obtain ⟨t, hmodules, -, hthird⟩ := run_shutDownEach_of_quiet
    (fun m hm => h.modules m (List.mem_reverse.1 hm)) depth v hfound
  refine ⟨t, ?_, by rw [hthird, hsecond, hfirst]⟩
  have hstops : (stopTransports (nested (depth + 1))).run s = .ok ((), v) :=
    run_bind_ok.2 ⟨s, s, rfl, run_bind_ok.2 ⟨_, u, hlisteners, hsenders⟩⟩
  rw [run_shutdown_of_stopped hstops, hsame, Deployment.moduleNames, ← List.map_reverse]
  exact hmodules

end Session

namespace Deployment

variable {settings : EngineSettings} {s : Session}

/-- **What a shutdown reaches**, wherever requests have led before.  It stops every listener and
    every sender, and then shuts modules down up to the first that fails.  So where outside code asks
    for nothing but notes, every module is reached if and only if none fails but perhaps the one
    that was registered first. -/
theorem Reachable.shuts_down (h : Reachable settings s.deployment) (depth : Nat) :
    Closes (nested depth) s ((shutdown (nested depth)).run s) ∧
    (s.deployment.ClosesQuietly → ∃ t,
      (shutdown (nested (depth + 1))).run s =
        .ok (firstFailure s.deployment.modules.reverse, t) ∧
      closingsOf t.events = closingsOf s.events ++
        (s.deployment.listeners.reverse.map fun tr => .transportStopped .listener tr.endpoint) ++
        (s.deployment.senders.reverse.map fun tr => .transportStopped .sender tr.endpoint) ++
        ((reached s.deployment.modules.reverse).map fun m => .moduleShutDown m.module.name) ∧
      (reached s.deployment.modules.reverse = s.deployment.modules.reverse ↔
        ∀ m ∈ s.deployment.modules.tail, m.module.shutdown.ownVerdict? = some (.ok ()))) := by
  refine ⟨shutdown_course (keeping_nested depth) h.nodup_moduleNames, fun hquiet => ?_⟩
  obtain ⟨t, hrun, hclosings⟩ := run_shutdown_of_quiet hquiet h.nodup_moduleNames depth
  refine ⟨t, hrun, hclosings, ?_⟩
  rw [reached_eq_self_iff, List.dropLast_reverse]
  simp

/-- A module that says when it is shut down, and gives a verdict then. -/
def tellingModule (name : String) (verdict : Verdict) : Module where
  name := name
  handlers _ := []
  init _ := .done (.ok ())
  shutdown := .ask (.note (.said name)) fun _ => .done verdict

/-- A side of a transport that cannot be stopped. -/
def stubbornSide : TransportSide where
  start _ := .done (.ok ())
  stop := .done (.error { message := "still in use" })

/-- A session with a listener that cannot be stopped and three modules, the middle one of which
    fails. -/
theorem exists_closable :
    ∃ s : Session, Reachable {} s.deployment ∧ s.deployment.ClosesQuietly ∧
      (closingsOf s.events).length = 0 ∧
      s.deployment.listeners.map (fun tr => tr.endpoint.name) = ["http", "amqp"] ∧
      s.deployment.senders.map (fun tr => tr.endpoint.name) = ["http"] ∧
      s.deployment.moduleNames = ["first", "second", "third"] ∧
      firstFailure s.deployment.modules.reverse = .error { message := "boom" } ∧
      (reached s.deployment.modules.reverse).map (fun m => m.module.name) = ["third", "second"] := by
  obtain ⟨s, hs, ⟨htransports, hmodules⟩, hrest⟩ := exists_chronicle_of_build {} 2
    [.addTransport "http", .addTransport "amqp",
      .registerModule (tellingModule "first" (.ok ())),
      .register .sender "http" (idleSide (.ok ())), .register .listener "http" (idleSide (.ok ())),
      .registerModule (tellingModule "second" (.error { message := "boom" })),
      .register .listener "amqp" stubbornSide,
      .registerModule (tellingModule "third" (.ok ()))]
    (fun s => ((∀ tr ∈ s.deployment.listeners ++ s.deployment.senders,
        tr.side.stop.ownVerdict?.isSome = true) ∧
        ∀ m ∈ s.deployment.modules, m.module.shutdown.ownVerdict?.isSome = true) ∧
      (closingsOf s.events).length = 0 ∧
      s.deployment.listeners.map (fun tr => tr.endpoint.name) = ["http", "amqp"] ∧
      s.deployment.senders.map (fun tr => tr.endpoint.name) = ["http"] ∧
      s.deployment.moduleNames = ["first", "second", "third"] ∧
      firstFailure s.deployment.modules.reverse = .error { message := "boom" } ∧
      (reached s.deployment.modules.reverse).map (fun m => m.module.name) = ["third", "second"])
    (by decide +kernel)
  refine ⟨s, hs.reachable, ⟨?_, ?_⟩, hrest⟩
  · exact fun tr htr => Option.isSome_iff_exists.1 (htransports tr htr)
  · exact fun m hm => Option.isSome_iff_exists.1 (hmodules m hm)

/-- All transports are stopped, also after the one that cannot be; of the modules, the one that was
    registered before the failing one is left out. -/
theorem shuts_down_up_to_failing_module :
    ∃ s t : Session, Reachable {} s.deployment ∧ s.deployment.ClosesQuietly ∧
      s.deployment.moduleNames = ["first", "second", "third"] ∧
      (shutdown (nested 2)).run s = .ok (.error { message := "boom" }, t) ∧
      Closes (nested 2) s (.ok (.error { message := "boom" }, t)) ∧
      closingsOf t.events = closingsOf s.events ++
        (s.deployment.listeners.reverse.map fun tr => .transportStopped .listener tr.endpoint) ++
        (s.deployment.senders.reverse.map fun tr => .transportStopped .sender tr.endpoint) ++
        [.moduleShutDown "third", .moduleShutDown "second"] := by
  obtain ⟨s, hs, hquiet, -, -, -, hnames, hfailure, hreached⟩ := exists_closable
  obtain ⟨-, hcomputed⟩ := hs.shuts_down 1
  obtain ⟨t, hrun, hclosings, -⟩ := hcomputed hquiet
  have hcourse := (hs.shuts_down 2).1
  rw [hfailure] at hrun
  rw [hrun] at hcourse
  refine ⟨s, t, hs, hquiet, hnames, hrun, hcourse, ?_⟩
  rw [hclosings]
  have htold : (reached s.deployment.modules.reverse).map
      (fun m => Event.moduleShutDown m.module.name) =
        (["third", "second"] : List String).map Event.moduleShutDown := by
    rw [← hreached, List.map_map]
    rfl
  rw [htold]
  rfl

/-- **A shutdown leaves a module out** when one that was registered later fails: its shutdown is
    over, and the journal tells nothing of that module. -/
theorem shutdown_leaves_module_out :
    ¬ ∀ (settings : EngineSettings) (s t : Session) (depth : Nat) (verdict : Verdict),
      Reachable settings s.deployment →
      (shutdown (nested depth)).run s = .ok (verdict, t) →
      ∀ name ∈ s.deployment.moduleNames, .moduleShutDown name ∈ t.events := by
  intro hall
  obtain ⟨s, hs, hquiet, hnone, -, -, hnames, -, hreached⟩ := exists_closable
  obtain ⟨t, hrun, hclosings⟩ := run_shutdown_of_quiet hquiet hs.nodup_moduleNames 1
  have htold : .moduleShutDown "first" ∈ closingsOf t.events :=
    List.mem_filter.2 ⟨hall {} s t 2 _ hs hrun "first" (by simp [hnames]), rfl⟩
  rw [hclosings, List.length_eq_zero_iff.1 hnone] at htold
  have hfirst : "first" ∈ (reached s.deployment.modules.reverse).map fun m => m.module.name := by
    simpa using htold
  rw [hreached] at hfirst
  simp at hfirst

end Deployment

end ExchangePipeline
