/-
  ExchangePipeline/Proofs/Session/Bootstrap.lean
  ==============================================
  **What a bootstrap does, and what it leaves out.**

  A bootstrap takes the modules that are registered when it begins, in registration
  order, and sets those up that are not ready when their turn comes.  The first
  setup that fails ends it.  Otherwise it has every chain in the cache, which cannot
  fail, and then starts the listeners and the senders, whatever becomes of each.
  `Bootstraps` lists these courses, and those in which outside code gives no result
  at all; there are no others (`Reachable.bootstraps`).

  Modules that are registered by the setups themselves are not among those that the
  bootstrap takes.  They are ready afterwards only if something else has set them up
  (`isReady_after_initModules`).
-/
import ExchangePipeline.Proofs.Session.Setups

namespace ExchangePipeline

open Session

/-! ### One after the other -/

section

variable {α σ : Type} {does : α → σ → σ → Prop}

/-- Something is done for each of a list, one after the other. -/
inductive InTurn (does : α → σ → σ → Prop) : List α → σ → σ → Prop
  | nil (s : σ) : InTurn does [] s s
  | cons {a : α} {rest : List α} {s t u : σ} (first : does a s t) (others : InTurn does rest t u) :
      InTurn does (a :: rest) s u

/-- It has been done for some, and the rest are still to come. -/
def Partway (does : α → σ → σ → Prop) (all : List α) (s : σ) (rest : List α) (t : σ) : Prop :=
  ∃ done, all = done ++ rest ∧ InTurn does done s t

variable {a : α} {all rest : List α} {s t u : σ}

theorem Partway.start (all : List α) (s : σ) : Partway does all s all s :=
  ⟨[], rfl, .nil s⟩

theorem Partway.cons (first : does a s t) (h : Partway does all t rest u) :
    Partway does (a :: all) s rest u := by
  obtain ⟨done, rfl, hdone⟩ := h
  exact ⟨a :: done, rfl, .cons first hdone⟩

theorem InTurn.keeps {R : σ → σ → Prop} [IsPreorder σ R] (hdoes : ∀ a s t, does a s t → R s t)
    (h : InTurn does all s t) : R s t := by
  induction h with
  | nil s => exact refl_of R s
  | cons first _ ih => exact trans_of R (hdoes _ _ _ first) ih

/-- What has been brought about for each, and lasts, is true of all in the end. -/
theorem InTurn.forall_mem {P : α → σ → Prop} (hdoes : ∀ a s t, does a s t → P a t)
    (hlasts : ∀ a b s t, does b s t → P a s → P a t) (h : InTurn does all s t) :
    ∀ a ∈ all, P a t := by
  have hkept : ∀ {a all s t}, InTurn does all s t → P a s → P a t := by
    intro a all s t h
    induction h with
    | nil s => exact id
    | cons first _ ih => exact fun ha => ih (hlasts _ _ _ _ first ha)
  induction h with
  | nil s =>
    intro a ha
    cases ha
  | cons first others ih =>
    intro a ha
    rcases List.mem_cons.1 ha with rfl | ha
    · exact hkept others (hdoes _ _ _ first)
    · exact ih a ha

end

namespace Session

variable {inner : Inner} {s t u : Session} {name : String}

/-! ### Setting modules up in turn -/

/-- A module is ready, or its setup succeeds. -/
def MakesReady (inner : Inner) (name : String) (s t : Session) : Prop :=
  (s.deployment.isReady name = true ∧ t = s) ∨ SetsUp inner name (.ok ()) s t

/-- The setup of a module gives no result: it is under way already and so waits for itself, or its
    program gives none. -/
def SetupHalts (inner : Inner) (name : String) (halt : Halt) (s : Session) : Prop :=
  ∃ m, s.deployment.module? name = some m ∧
    ((m.status = .running ∧ halt = .blocked) ∨
      (m.status = .pending ∧
        (inner.carryOut (m.module.init m.attempts)).run (s.beginSetup name) = .error halt))

theorem MakesReady.advances (h : inner.Keeping Advances) (hready : MakesReady inner name s t) :
    s.Advances t := by
  rcases hready with ⟨-, rfl⟩ | hsetup
  · exact .refl _
  · exact hsetup.advances h

theorem MakesReady.isReady (h : inner.Keeping Advances) (hready : MakesReady inner name s t) :
    t.deployment.isReady name = true := by
  rcases hready with ⟨hready, rfl⟩ | hsetup
  · exact hready
  · exact hsetup.isReady h

/-- Setting a registered module up makes it ready, fails, or gives no result. -/
theorem initModule_course (inner : Inner) (hname : name ∈ s.deployment.moduleNames) :
    (∃ t, MakesReady inner name s t ∧ (initModule inner name).run s = .ok (.ok (), t)) ∨
      (∃ cause t, SetsUp inner name (.error cause) s t ∧
        (initModule inner name).run s = .ok (.error (.moduleInit name cause), t)) ∨
      ∃ halt, SetupHalts inner name halt s ∧ (initModule inner name).run s = .error halt := by
  obtain ⟨m, hm⟩ := Deployment.mem_moduleNames.1 hname
  cases hrun : (initModule inner name).run s with
  | ok outcome =>
    obtain ⟨result, t⟩ := outcome
    obtain ⟨hnone, -⟩ | ⟨hready, rfl, rfl⟩ | ⟨verdict, hsetup, rfl⟩ := initModule_cases hrun
    · rw [hm] at hnone
      cases hnone
    · exact Or.inl ⟨_, Or.inl ⟨hready, rfl⟩, rfl⟩
    · cases verdict with
      | ok done => exact Or.inl ⟨t, Or.inr hsetup, rfl⟩
      | error cause => exact Or.inr (Or.inl ⟨cause, t, hsetup, rfl⟩)
  | error halt =>
    refine Or.inr (Or.inr ⟨halt, ⟨m, hm, ?_⟩, rfl⟩)
    obtain hget | ⟨_, _, hget, hrun⟩ := run_bind_error.1 hrun
    · cases hget
    cases hget
    simp only [hm] at hrun
    cases hstatus : m.status with
    | ready =>
      simp only [hstatus] at hrun
      cases hrun
    | running =>
      simp only [hstatus] at hrun
      cases hrun
      exact Or.inl ⟨rfl, rfl⟩
    | pending =>
      simp only [hstatus] at hrun
      obtain hbegun | ⟨_, _, hbegun, hrun⟩ := run_bind_error.1 hrun
      · cases hbegun
      cases hbegun
      obtain hnoted | ⟨_, _, hnoted, hrun⟩ := run_bind_error.1 hrun
      · cases hnoted
      cases hnoted
      obtain hinit | ⟨verdict, _, -, hrun⟩ := run_bind_error.1 hrun
      · exact Or.inr ⟨rfl, hinit⟩
      · cases verdict <;> cases hrun

/-- The loop over modules makes all ready, ends with the first setup that fails, or with the first
    that gives no result. -/
theorem initEach_course (h : inner.Keeping Advances) (s : Session) (names : List String)
    (hnames : ∀ name ∈ names, name ∈ s.deployment.moduleNames) :
    (∃ t, InTurn (MakesReady inner) names s t ∧
        (initEach inner names).run s = .ok (.ok (), t)) ∨
      (∃ name rest cause u t, Partway (MakesReady inner) names s (name :: rest) u ∧
        SetsUp inner name (.error cause) u t ∧
        (initEach inner names).run s = .ok (.error (.moduleInit name cause), t)) ∨
      ∃ name rest halt u, Partway (MakesReady inner) names s (name :: rest) u ∧
        SetupHalts inner name halt u ∧ (initEach inner names).run s = .error halt := by
  induction names generalizing s with
  | nil => exact Or.inl ⟨s, .nil s, rfl⟩
  | cons name rest ih =>
    obtain ⟨t, hready, hrun⟩ | ⟨cause, t, hfails, hrun⟩ | ⟨halt, hhalts, hrun⟩ :=
      initModule_course inner (hnames name List.mem_cons_self)
    · obtain ⟨late, hlate, -⟩ :=
        Deployment.moduleNames_of_steps (hready.advances h).moves.steps
      have hrest : ∀ other ∈ rest, other ∈ t.deployment.moduleNames := by
        intro other hother
        rw [hlate]
        exact List.mem_append_left _ (hnames other (List.mem_cons_of_mem _ hother))
      obtain ⟨u, hturn, hrest⟩ | ⟨other, more, cause, u, v, hpart, hfails, hrest⟩ |
        ⟨other, more, halt, u, hpart, hhalts, hrest⟩ := ih t hrest
      · exact Or.inl ⟨u, .cons hready hturn, run_bind_ok.2 ⟨_, t, hrun, hrest⟩⟩
      · exact Or.inr (Or.inl ⟨other, more, cause, u, v, hpart.cons hready, hfails,
          run_bind_ok.2 ⟨_, t, hrun, hrest⟩⟩)
      · exact Or.inr (Or.inr ⟨other, more, halt, u, hpart.cons hready, hhalts,
          run_bind_error.2 (Or.inr ⟨_, t, hrun, hrest⟩)⟩)
    · exact Or.inr (Or.inl ⟨name, rest, cause, s, t, .start _ _, hfails,
        run_bind_ok.2 ⟨_, t, hrun, rfl⟩⟩)
    · exact Or.inr (Or.inr ⟨name, rest, halt, s, .start _ _, hhalts,
        run_bind_error.2 (Or.inl hrun)⟩)

/-- All modules whose turn has come are ready in the end. -/
theorem isReady_of_inTurn (h : inner.Keeping Advances) {names : List String}
    (hturn : InTurn (MakesReady inner) names s t) :
    ∀ name ∈ names, t.deployment.isReady name = true :=
  hturn.forall_mem (P := fun name s => s.deployment.isReady name = true)
    (fun _ _ _ hready => hready.isReady h) fun _ _ _ _ hready =>
      Deployment.isReady_of_steps (hready.advances h).moves.steps

/-! ### Whatever becomes of each -/

/-- A loop that goes on whatever becomes of each does something for all of a list, unless it comes
    to one for which that gives no result. -/
theorem inTurn_or_halts {α β γ : Type} (act : α → Doing γ) (each : List α → Doing β)
    (f : γ → β → β) {last : β} (hnil : each [] = pure last)
    (hcons : ∀ a rest, each (a :: rest) =
      act a >>= fun c => each rest >>= fun b => pure (f c b)) (all : List α) (s : Session) :
    (∃ b t, InTurn (fun a s t => ∃ c, (act a).run s = .ok (c, t)) all s t ∧
        (each all).run s = .ok (b, t)) ∨
      ∃ a rest halt u, Partway (fun a s t => ∃ c, (act a).run s = .ok (c, t)) all s (a :: rest) u ∧
        (act a).run u = .error halt ∧ (each all).run s = .error halt := by
  induction all generalizing s with
  | nil =>
    rw [hnil]
    exact Or.inl ⟨last, s, .nil s, rfl⟩
  | cons a rest ih =>
    rw [hcons]
    cases hact : (act a).run s with
    | error halt =>
      exact Or.inr ⟨a, rest, halt, s, .start _ _, hact, run_bind_error.2 (Or.inl hact)⟩
    | ok outcome =>
      obtain ⟨c, t⟩ := outcome
      rcases ih t with ⟨b, u, hturn, hrest⟩ | ⟨other, more, halt, u, hpart, hhalts, hrest⟩
      · refine Or.inl ⟨f c b, u, .cons ⟨c, hact⟩ hturn, ?_⟩
        exact run_bind_ok.2 ⟨c, t, hact, run_bind_ok.2 ⟨b, u, hrest, rfl⟩⟩
      · refine Or.inr ⟨other, more, halt, u, hpart.cons ⟨c, hact⟩, hhalts, ?_⟩
        exact run_bind_error.2 (Or.inr ⟨c, t, hact, run_bind_error.2 (Or.inl hrest)⟩)

/-! ### Starting transports in turn -/

/-- A transport is started, and it does not matter what becomes of that. -/
def Starts (inner : Inner) (role : TransportRole) (tr : RegisteredTransport) (s t : Session) : Prop :=
  ∃ verdict, (inner.carryOut (tr.side.start tr.endpoint)).run
    (s.record (.transportStarted role tr.endpoint)) = .ok (verdict, t)

/-- The program that starts a transport gives no result. -/
def StartHalts (inner : Inner) (role : TransportRole) (tr : RegisteredTransport) (halt : Halt)
    (s : Session) : Prop :=
  (inner.carryOut (tr.side.start tr.endpoint)).run
    (s.record (.transportStarted role tr.endpoint)) = .error halt

/-- The loop over transports starts all, unless a program gives no result. -/
theorem startEach_course (inner : Inner) (role : TransportRole)
    (transports : List RegisteredTransport) (s : Session) :
    (∃ n t, InTurn (Starts inner role) transports s t ∧
        (startEach inner role transports).run s = .ok (n, t)) ∨
      ∃ tr rest halt u, Partway (Starts inner role) transports s (tr :: rest) u ∧
        StartHalts inner role tr halt u ∧ (startEach inner role transports).run s = .error halt := by
  apply inTurn_or_halts (fun tr => do
    modify (record (.transportStarted role tr.endpoint))
    inner.carryOut (tr.side.start tr.endpoint)) (startEach inner role)
    (fun verdict n => (if verdict.isOk then 1 else 0) + n) rfl
  intro tr rest
  simp only [startEach, bind_assoc]

/-- All listeners are started and then all senders, those that are registered at the beginning,
    unless a program gives no result. -/
theorem initTransports_course (inner : Inner) (s : Session) :
    (∃ n u t, InTurn (Starts inner .listener) s.deployment.listeners s u ∧
        InTurn (Starts inner .sender) s.deployment.senders u t ∧
        (initTransports inner).run s = .ok (n, t)) ∨
      (∃ tr rest halt u, Partway (Starts inner .listener) s.deployment.listeners s (tr :: rest) u ∧
        StartHalts inner .listener tr halt u ∧ (initTransports inner).run s = .error halt) ∨
      ∃ u tr rest halt v, InTurn (Starts inner .listener) s.deployment.listeners s u ∧
        Partway (Starts inner .sender) s.deployment.senders u (tr :: rest) v ∧
        StartHalts inner .sender tr halt v ∧ (initTransports inner).run s = .error halt := by
  have hget : (get : Doing Session).run s = .ok (s, s) := rfl
  obtain ⟨n, u, hlisteners, hfirst⟩ | ⟨tr, rest, halt, u, hpart, hhalts, hfirst⟩ :=
    startEach_course inner .listener s.deployment.listeners s
  · obtain ⟨m, t, hsenders, hsecond⟩ | ⟨tr, rest, halt, v, hpart, hhalts, hsecond⟩ :=
      startEach_course inner .sender s.deployment.senders u
    · refine Or.inl ⟨n + m, u, t, hlisteners, hsenders, ?_⟩
      exact run_bind_ok.2 ⟨s, s, hget, run_bind_ok.2 ⟨n, u, hfirst,
        run_bind_ok.2 ⟨m, t, hsecond, rfl⟩⟩⟩
    · refine Or.inr (Or.inr ⟨u, tr, rest, halt, v, hlisteners, hpart, hhalts, ?_⟩)
      exact run_bind_error.2 (Or.inr ⟨s, s, hget, run_bind_error.2 (Or.inr ⟨n, u, hfirst,
        run_bind_error.2 (Or.inl hsecond)⟩)⟩)
  · refine Or.inr (Or.inl ⟨tr, rest, halt, u, hpart, hhalts, ?_⟩)
    exact run_bind_error.2 (Or.inr ⟨s, s, hget, run_bind_error.2 (Or.inl hfirst)⟩)

end Session

namespace Deployment

variable {d e : Deployment}

/-! ### Everything in the cache -/

/-- Asking for a chain changes nothing but the cache.  The chain is cached then, and what was cached
    before still is. -/
theorem cached?_of_chain {key : ChainKey} {chain : Chain Handler} (h : d.chain key = .ok (chain, e)) :
    e = { d with cache := e.cache, serials := e.serials } ∧
      (∃ cached, e.cached? key = some cached) ∧
      ∀ other cached, d.cached? other = some cached → e.cached? other = some cached := by
  obtain ⟨cached, hcached, -, rfl⟩ | ⟨hnew, id, -, -, rfl⟩ := chain_ok h
  · exact ⟨rfl, ⟨cached, hcached⟩, fun _ _ => id⟩
  · rw [cached?] at hnew
    refine ⟨rfl, ⟨{ chain, serial := d.serials }, by simp [cached?, List.lookup_append, hnew]⟩, ?_⟩
    intro other cached hcached
    rw [cached?] at hcached
    simp [cached?, List.lookup_append, hcached]

theorem cached?_of_cacheAll {keys : List ChainKey} (h : cacheAll keys d = (.ok (), e)) :
    e = { d with cache := e.cache, serials := e.serials } ∧
      (∀ key ∈ keys, ∃ cached, e.cached? key = some cached) ∧
      ∀ other cached, d.cached? other = some cached → e.cached? other = some cached := by
  induction keys generalizing d with
  | nil =>
    cases h
    exact ⟨rfl, fun _ hkey => (List.not_mem_nil hkey).elim, fun _ _ => id⟩
  | cons key rest ih =>
    rw [cacheAll] at h
    cases hchain : d.chain key with
    | error error =>
      rw [hchain] at h
      cases h
    | ok result =>
      rw [hchain] at h
      obtain ⟨hfirst, ⟨cached, hcached⟩, hkept⟩ := cached?_of_chain hchain
      obtain ⟨hframe, hrest, hlater⟩ := ih h
      refine ⟨?_, fun other hother => ?_, fun other c hc => hlater _ _ (hkept _ _ hc)⟩
      · rw [hfirst] at hframe
        exact hframe
      rcases List.mem_cons.1 hother with rfl | hother
      · exact ⟨cached, hlater _ _ hcached⟩
      · exact hrest other hother

/-- Every flow of every deployed operation has its key among those of all chains. -/
theorem Coherent.mem_allKeys (h : d.Coherent) {service operation : String} {id : NodeId}
    (ho : d.tree.operation? service operation = some id) (flow : Flow) :
    { service, operation, flow } ∈ d.allKeys := by
  obtain ⟨p, node, hp, -⟩ := h.tree.operation?_eq_some_iff.1 ho
  refine List.mem_flatMap.2 ⟨service, h.tree.mem_services.2 ⟨p, hp⟩, ?_⟩
  refine List.mem_flatMap.2 ⟨operation, h.tree.mem_operations.2 ⟨id, ho⟩, ?_⟩
  exact List.mem_map.2 ⟨flow, by cases flow <;> decide, rfl⟩

/-- All chains of all deployed operations are cached. -/
def Cached (d : Deployment) : Prop :=
  ∀ service operation id, d.tree.operation? service operation = some id →
    ∀ flow, ∃ cached, d.cached? { service, operation, flow } = some cached

/-- Having every chain in the cache changes nothing else, and in a coherent deployment it cannot
    fail. -/
theorem Coherent.resolveAll_ok (h : d.Coherent) :
    ∃ e, d.resolveAll = (.ok d.allKeys.length, e) ∧
      e = { d with cache := e.cache, serials := e.serials } ∧ e.Cached := by
  have hall := h.cacheAll_ok fun key => h.operation?_of_mem_allKeys
  obtain ⟨e, hcache⟩ : ∃ e, cacheAll d.allKeys d = (.ok (), e) := ⟨_, Prod.ext hall rfl⟩
  obtain ⟨hframe, hcached, -⟩ := cached?_of_cacheAll hcache
  refine ⟨e, by rw [resolveAll, hcache]; rfl, hframe, fun service operation id ho flow => ?_⟩
  rw [hframe] at ho
  exact hcached _ (h.mem_allKeys ho flow)

end Deployment

namespace Session

variable {inner : Inner} {s t u v w : Session}

/-! ### Bootstraps -/

/-- A bootstrap from its beginning in `s` to where it starts transports in `t`.  The modules that
    are registered in `s` are made ready one after the other, and after that, in `u`, nothing
    happens but that every chain comes to be cached. -/
structure Prepares (inner : Inner) (s u t : Session) : Prop where
  setups : InTurn (MakesReady inner) s.deployment.moduleNames s u
  resolves : resolveAll.run u = .ok (.ok u.deployment.allKeys.length, t)
  unchanged : t = { u with deployment := { u.deployment with
    cache := t.deployment.cache, serials := t.deployment.serials } }
  ready : ∀ name ∈ s.deployment.moduleNames, t.deployment.isReady name = true
  cached : t.deployment.Cached

/-- **The courses of a bootstrap** from a session, with what each gives. -/
inductive Bootstraps (inner : Inner) (s : Session) :
    Except Halt (Except DeploymentError Unit × Session) → Prop
  /-- A setup fails, and that is all that happens. -/
  | setupFails {name : String} {rest : List String} {cause : Cause} {u t : Session}
      (partway : Partway (MakesReady inner) s.deployment.moduleNames s (name :: rest) u)
      (fails : SetsUp inner name (.error cause) u t) :
      Bootstraps inner s (.ok (.error (.moduleInit name cause), t))
  /-- Everything is prepared, then all listeners and all senders are started. -/
  | completes {u t v w : Session} (prepares : Prepares inner s u t)
      (listeners : InTurn (Starts inner .listener) t.deployment.listeners t v)
      (senders : InTurn (Starts inner .sender) t.deployment.senders v w) :
      Bootstraps inner s (.ok (.ok (), w))
  | setupHalts {name : String} {rest : List String} {halt : Halt} {u : Session}
      (partway : Partway (MakesReady inner) s.deployment.moduleNames s (name :: rest) u)
      (halts : SetupHalts inner name halt u) : Bootstraps inner s (.error halt)
  | listenerHalts {tr : RegisteredTransport} {rest : List RegisteredTransport} {halt : Halt}
      {u t v : Session} (prepares : Prepares inner s u t)
      (partway : Partway (Starts inner .listener) t.deployment.listeners t (tr :: rest) v)
      (halts : StartHalts inner .listener tr halt v) : Bootstraps inner s (.error halt)
  | senderHalts {tr : RegisteredTransport} {rest : List RegisteredTransport} {halt : Halt}
      {u t v w : Session} (prepares : Prepares inner s u t)
      (listeners : InTurn (Starts inner .listener) t.deployment.listeners t v)
      (partway : Partway (Starts inner .sender) t.deployment.senders v (tr :: rest) w)
      (halts : StartHalts inner .sender tr halt w) : Bootstraps inner s (.error halt)

/-- A bootstrap never refuses for want of a chain. -/
theorem Bootstraps.ne_config {error : ConfigError} :
    ¬ Bootstraps inner s (.ok (.error (.config error), t)) := by
  intro h
  cases h

/-- Once the modules are ready, nothing can go wrong before the first transport is started. -/
theorem prepares_of_inTurn (h : inner.Keeping Advances) (hs : s.deployment.Coherent)
    (hturn : InTurn (MakesReady inner) s.deployment.moduleNames s u) :
    ∃ t, Prepares inner s u t := by
  have hadvances : s.Advances u := hturn.keeps fun _ _ _ hready => hready.advances h
  obtain ⟨e, hresolve, hframe, hcached⟩ := (hs.steps hadvances.moves.steps).resolveAll_ok
  refine ⟨{ u with deployment := e }, hturn, run_take hresolve, ?_, ?_, hcached⟩
  · exact congrArg (fun e => { u with deployment := e }) hframe
  · intro name hname
    rw [hframe]
    exact isReady_of_inTurn h hturn name hname

theorem run_initModules : (initModules inner).run s = (initEach inner s.deployment.moduleNames).run s :=
  rfl

/-- **A bootstrap takes one of these courses.** -/
theorem bootstrap_course (h : inner.Keeping Advances) (hs : s.deployment.Coherent) :
    Bootstraps inner s ((bootstrap inner).run s) := by
  obtain ⟨u, hturn, hsetups⟩ | ⟨name, rest, cause, u, t, hpart, hfails, hsetups⟩ |
    ⟨name, rest, halt, u, hpart, hhalts, hsetups⟩ :=
      initEach_course h s s.deployment.moduleNames fun _ => id
  · obtain ⟨t, hprepares⟩ := prepares_of_inTurn h hs hturn
    -- from here on it is what the transports do
    have hhalts_of : ∀ {halt}, (initTransports inner).run t = .error halt →
        (bootstrap inner).run s = .error halt := by
      intro halt hstarts
      exact run_bind_error.2 (Or.inr ⟨_, u, hsetups, run_bind_error.2 (Or.inr
        ⟨_, t, hprepares.resolves, run_bind_error.2 (Or.inl hstarts)⟩)⟩)
    obtain ⟨n, v, w, hlisteners, hsenders, hstarts⟩ | ⟨tr, rest, halt, v, hpart, hhalts, hstarts⟩ |
      ⟨v, tr, rest, halt, w, hlisteners, hpart, hhalts, hstarts⟩ :=
        initTransports_course inner t
    · have hrun : (bootstrap inner).run s = .ok (.ok (), w) :=
        run_bind_ok.2 ⟨_, u, hsetups, run_bind_ok.2 ⟨_, t, hprepares.resolves,
          run_bind_ok.2 ⟨n, w, hstarts, rfl⟩⟩⟩
      rw [hrun]
      exact .completes hprepares hlisteners hsenders
    · rw [hhalts_of hstarts]
      exact .listenerHalts hprepares hpart hhalts
    · rw [hhalts_of hstarts]
      exact .senderHalts hprepares hlisteners hpart hhalts
  · have hrun : (bootstrap inner).run s = .ok (.error (.moduleInit name cause), t) :=
      run_bind_ok.2 ⟨_, t, hsetups, rfl⟩
    rw [hrun]
    exact .setupFails hpart hfails
  · have hrun : (bootstrap inner).run s = .error halt := run_bind_error.2 (Or.inl hsetups)
    rw [hrun]
    exact .setupHalts hpart hhalts

/-- Whether a computation succeeds, with a session that passes a check. -/
def succeeds (check : Session → Bool) : Except Halt (Except DeploymentError Unit × Session) → Bool
  | .ok (.ok (), t) => check t
  | _ => false

theorem succeeds_iff {check : Session → Bool}
    {outcome : Except Halt (Except DeploymentError Unit × Session)} :
    succeeds check outcome = true ↔ ∃ t, outcome = .ok (.ok (), t) ∧ check t = true := by
  constructor
  · intro h
    obtain _ | ⟨_ | _, t⟩ := outcome
    · cases h
    · cases h
    · exact ⟨t, rfl, h⟩
  · rintro ⟨t, rfl, h⟩
    exact h

end Session

namespace Deployment

variable {settings : EngineSettings} {s t : Session}

/-- **What a bootstrap does**, wherever requests have led before.  It refuses with the first setup
    that fails, and never for want of a chain. -/
theorem Reachable.bootstraps (h : Reachable settings s.deployment) (depth : Nat) :
    Bootstraps (nested depth) s ((bootstrap (nested depth)).run s) ∧
      ∀ error t, (bootstrap (nested depth)).run s ≠ .ok (.error (.config error), t) := by
  have hcourse := bootstrap_course (keeping_nested depth) h.coherent
  refine ⟨hcourse, fun error t hrun => ?_⟩
  rw [hrun] at hcourse
  exact hcourse.ne_config

/-- A transport side that starts, or does not. -/
def idleSide (verdict : Verdict) : TransportSide where
  start _ := .done verdict
  stop := .done (.ok ())

/-- The transports whose start a journal tells of. -/
def startsOf (log : List Event) : List (TransportRole × String) :=
  log.filterMap fun
    | .transportStarted role endpoint => some (role, endpoint.name)
    | _ => none

/-- A bootstrap fails with the setup of a module, and nothing else has been done then.  The next one
    sets the module up, has the chains of all flows in the cache, and passes over a listener that
    fails. -/
theorem bootstraps_after_failed_setup :
    ∃ s t : Session, Reachable {} s.deployment ∧
      setupsOf "stubborn" s.events = [.began, .ended false] ∧
      s.deployment.cache.length = 0 ∧ startsOf s.events = [] ∧
      Bootstraps (nested 2) s (.ok (.ok (), t)) ∧
      setupsOf "stubborn" t.events = [.began, .ended false, .began, .ended true] ∧
      t.deployment.cache.length = 4 ∧
      startsOf t.events = [(.listener, "http"), (.listener, "amqp"), (.sender, "http")] := by
  obtain ⟨s, hs, ⟨hfailed, hcache, hnone⟩, hagain⟩ := exists_chronicle_of_build {} 2
    [.addService "orders", .addOperation "orders" "place", .registerModule stubbornModule,
      .addTransport "http", .addTransport "amqp",
      .register .sender "http" (idleSide (.ok ())),
      .register .listener "http" (idleSide (.error { message := "port in use" })),
      .register .listener "amqp" (idleSide (.ok ())), .bootstrap]
    (fun s => (setupsOf "stubborn" s.events = [.began, .ended false] ∧
        s.deployment.cache.length = 0 ∧ startsOf s.events = []) ∧
      succeeds (fun t => decide (
          setupsOf "stubborn" t.events = [.began, .ended false, .began, .ended true] ∧
          t.deployment.cache.length = 4 ∧
          startsOf t.events = [(.listener, "http"), (.listener, "amqp"), (.sender, "http")]))
        ((bootstrap (nested 2)).run s) = true)
    (by decide +kernel)
  obtain ⟨t, hrun, hdone⟩ := succeeds_iff.1 hagain
  have hcourse := (hs.reachable.bootstraps 2).1
  rw [hrun] at hcourse
  exact ⟨s, t, hs.reachable, hfailed, hcache, hnone, hcourse, of_decide_eq_true hdone⟩

end Deployment

namespace Session

variable {inner : Inner} {s t : Session}

/-! ### Modules that are registered meanwhile -/

theorem inTurn_of_initModules (h : inner.Keeping Advances)
    (hrun : (initModules inner).run s = .ok (.ok (), t)) :
    InTurn (MakesReady inner) s.deployment.moduleNames s t := by
  rw [run_initModules] at hrun
  obtain ⟨u, hturn, hsame⟩ | ⟨name, rest, cause, u, v, -, -, hother⟩ |
    ⟨name, rest, halt, u, -, -, hother⟩ :=
      initEach_course h s s.deployment.moduleNames fun _ => id
  · cases hsame.symm.trans hrun
    exact hturn
  · cases hother.symm.trans hrun
  · cases hother.symm.trans hrun

/-- A module that is not registered yet comes to be ready by a setup that is told of. -/
theorem Moves.isReady_iff (h : Moves s t) {new : List Event} (told : t.events = s.events ++ new)
    {name : String} (hname : name ∉ s.deployment.moduleNames) :
    t.deployment.isReady name = true ↔ .initEnded name true ∈ new := by
  have hpending : Attempted (s.deployment.statusOf name) [] := by
    rw [Deployment.statusOf_of_not_mem hname]
    exact .nil
  have hattempted := h.attempts told name [] hpending
  rw [← Deployment.statusOf_eq_ready_iff]
  exact hattempted.ready_iff

/-- **What the loop over modules leaves out.**  If it succeeds, it has made those modules ready that
    were registered when it began.  Those that were registered meanwhile come behind them, and such
    a module is ready only if something else has set it up. -/
theorem isReady_after_initModules {depth : Nat}
    (hrun : (initModules (nested depth)).run s = .ok (.ok (), t)) :
    ∃ late new, t.deployment.moduleNames = s.deployment.moduleNames ++ late ∧
      t.events = s.events ++ new ∧
      InTurn (MakesReady (nested depth)) s.deployment.moduleNames s t ∧
      (∀ name ∈ s.deployment.moduleNames, t.deployment.isReady name = true) ∧
      (∀ name ∈ late, t.deployment.isReady name = true ↔ .initEnded name true ∈ new) ∧
      ((∀ name ∈ t.deployment.moduleNames, t.deployment.isReady name = true) ↔
        ∀ name ∈ late, .initEnded name true ∈ new) := by
  have hkeeping := keeping_nested depth
  have hturn := inTurn_of_initModules hkeeping hrun
  have hadvances : s.Advances t := hturn.keeps fun _ _ _ hready => hready.advances hkeeping
  obtain ⟨late, hnames, hlate⟩ := Deployment.moduleNames_of_steps hadvances.moves.steps
  obtain ⟨new, hnew⟩ := hadvances.moves.exists_new
  have hearly := isReady_of_inTurn hkeeping hturn
  have hiff : ∀ name ∈ late, t.deployment.isReady name = true ↔ .initEnded name true ∈ new :=
    fun name hname => hadvances.moves.isReady_iff hnew (hlate name hname)
  refine ⟨late, new, hnames, hnew, hturn, hearly, hiff, ?_⟩
  rw [hnames, List.forall_mem_append]
  constructor
  · rintro ⟨-, hready⟩ name hname
    exact (hiff name hname).1 (hready name hname)
  · intro hsucceeded
    exact ⟨hearly, fun name hname => (hiff name hname).2 (hsucceeded name hname)⟩

/-- A module with nothing to do. -/
def idleModule (name : String) : Module where
  name := name
  handlers _ := []
  init _ := .done (.ok ())
  shutdown := .done (.ok ())

/-- A module whose setup registers two others, and engages the first of them. -/
def loaderModule : Module where
  name := "loader"
  handlers _ := []
  init _ :=
    .ask (.registerModule (idleModule "plugin")) fun _ =>
      .ask (.registerModule (idleModule "spare")) fun _ =>
        .ask (.engage "plugin" .everywhere) fun _ => .done (.ok ())
  shutdown := .done (.ok ())

/-- What the loop over modules leaves of a session on which the loader is registered. -/
theorem exists_loaded :
    ∃ s t : Session, Deployment.Reachable {} s.deployment ∧
      (initModules (nested 3)).run s = .ok (.ok (), t) ∧ s.deployment.moduleNames = ["loader"] ∧
      t.deployment.moduleNames = ["loader", "plugin", "spare"] ∧
      t.deployment.isReady "plugin" = true ∧ t.deployment.isReady "spare" = false := by
  obtain ⟨s, hs, hloader, hloaded⟩ := Deployment.exists_chronicle_of_build {} 3
    [.registerModule loaderModule]
    (fun s => s.deployment.moduleNames = ["loader"] ∧
      succeeds (fun t => decide (t.deployment.moduleNames = ["loader", "plugin", "spare"] ∧
          t.deployment.isReady "plugin" = true ∧ t.deployment.isReady "spare" = false))
        ((initModules (nested 3)).run s) = true)
    (by decide +kernel)
  obtain ⟨t, hrun, hdone⟩ := succeeds_iff.1 hloaded
  exact ⟨s, t, hs.reachable, hrun, hloader, of_decide_eq_true hdone⟩

/-- Of two modules that are registered meanwhile, the one that is engaged is ready, for the
    engagement has set it up. -/
theorem isReady_after_initModules_of_loader :
    ∃ (s t : Session) (new : List Event), (initModules (nested 3)).run s = .ok (.ok (), t) ∧
      t.deployment.moduleNames = s.deployment.moduleNames ++ ["plugin", "spare"] ∧
      t.events = s.events ++ new ∧
      t.deployment.isReady "plugin" = true ∧ .initEnded "plugin" true ∈ new ∧
      t.deployment.isReady "spare" = false ∧ .initEnded "spare" true ∉ new := by
  obtain ⟨s, t, -, hrun, hbefore, hafter, hplugin, hspare⟩ := exists_loaded
  obtain ⟨late, new, hnames, hnew, -, -, hlate, -⟩ := isReady_after_initModules hrun
  obtain rfl : late = ["plugin", "spare"] := by
    rw [hbefore, hafter, ← List.singleton_append] at hnames
    exact (List.append_cancel_left hnames).symm
  refine ⟨s, t, new, hrun, hnames, hnew, hplugin, ?_, hspare, ?_⟩
  · exact (hlate "plugin" (by simp)).1 hplugin
  · rw [← hlate "spare" (by simp), hspare]
    simp

/-- **The loop over modules leaves one out** that is registered by the setup of another: it succeeds,
    and there is a registered module that is not ready. -/
theorem initModules_leaves_module_out :
    ¬ ∀ (settings : EngineSettings) (s t : Session) (depth : Nat),
      Deployment.Reachable settings s.deployment →
      (initModules (nested depth)).run s = .ok (.ok (), t) →
      ∀ name ∈ t.deployment.moduleNames, t.deployment.isReady name = true := by
  intro hall
  obtain ⟨s, t, hs, hrun, -, hafter, -, hspare⟩ := exists_loaded
  have hready := hall {} s t 3 hs hrun "spare" (by simp [hafter])
  cases hready.symm.trans hspare

end Session

end ExchangePipeline
