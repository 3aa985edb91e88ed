/-
  ExchangePipeline/Proofs/Session/Setups.lean
  ===========================================
  **Modules are set up until it succeeds, and then no more.**

  The setups of a module, as the journals tell of them, are failures up to a
  success, and nothing comes after that (`Attempted`).  How far this has gone is
  the status of the module, so it can be read off single moves (`Move.attempted`).

  A module is engaged when it is ready only.  So wherever a module is engaged, its
  setup has succeeded before, and the same is true of every module that has a
  handler in a chain, whether the chain is cached or resolved anew
  (`Chronicle.setup_succeeds_once`).
-/
import ExchangePipeline.Proofs.Deployment.Readiness
import ExchangePipeline.Proofs.Session.Reachable

namespace ExchangePipeline

open Session

/-! ### The setups of a module -/

/-- What happens to the setup of a module. -/
inductive SetupEvent where
  | began
  | ended (succeeded : Bool)
deriving DecidableEq, Repr

/-- What an event tells of the setup of a module. -/
def Event.setup? (name : String) : Event → Option SetupEvent
  | .initBegan other => if other = name then some .began else none
  | .initEnded other succeeded => if other = name then some (.ended succeeded) else none
  | _ => none

/-- What is told of the setups of a module, in order. -/
def setupsOf (name : String) (log : List Event) : List SetupEvent :=
  log.filterMap (Event.setup? name)

/-- The last setup, as far as the status of a module tells of it. -/
def ModuleStatus.lastSetup : ModuleStatus → List SetupEvent
  | .pending => []
  | .running => [.began]
  | .ready => [.began, .ended true]

/-- The setups of a module that has come to a status: any number of failures, and then the one that
    the status tells of. -/
def Attempted (status : ModuleStatus) (setups : List SetupEvent) : Prop :=
  ∃ failures, setups = (List.replicate failures [.began, .ended false]).flatten ++ status.lastSetup

/-- How far the setup of a module is; one that is not registered is still to be set up. -/
def Deployment.statusOf (d : Deployment) (name : String) : ModuleStatus :=
  ((d.module? name).map RegisteredModule.status).getD .pending

variable {name : String} {setups : List SetupEvent} {log more : List Event}

theorem setupsOf_append : setupsOf name (log ++ more) = setupsOf name log ++ setupsOf name more :=
  List.filterMap_append

theorem setupsOf_began : setupsOf name [.initBegan name] = [.began] := by
  simp [setupsOf, Event.setup?]

theorem setupsOf_ended (succeeded : Bool) :
    setupsOf name [.initEnded name succeeded] = [.ended succeeded] := by
  simp [setupsOf, Event.setup?]

theorem setupsOf_began_of_ne {other : String} (h : other ≠ name) :
    setupsOf name [.initBegan other] = [] := by
  simp [setupsOf, Event.setup?, h]

theorem setupsOf_ended_of_ne {other : String} (h : other ≠ name) (succeeded : Bool) :
    setupsOf name [.initEnded other succeeded] = [] := by
  simp [setupsOf, Event.setup?, h]

theorem Event.setup?_eq_some_iff {event : Event} {succeeded : Bool} :
    event.setup? name = some (.ended succeeded) ↔ event = .initEnded name succeeded := by
  cases event <;> simp [Event.setup?]

theorem Attempted.nil : Attempted .pending [] :=
  ⟨0, rfl⟩

theorem Attempted.begin (h : Attempted .pending setups) : Attempted .running (setups ++ [.began]) := by
  obtain ⟨failures, rfl⟩ := h
  exact ⟨failures, by simp [ModuleStatus.lastSetup]⟩

theorem Attempted.end (h : Attempted .running setups) (succeeded : Bool) :
    Attempted (if succeeded then .ready else .pending) (setups ++ [.ended succeeded]) := by
  obtain ⟨failures, rfl⟩ := h
  cases succeeded with
  | true => exact ⟨failures, by simp [ModuleStatus.lastSetup]⟩
  | false =>
    refine ⟨failures + 1, ?_⟩
    simp [ModuleStatus.lastSetup, List.replicate_succ']

/-- A module is ready where a success is told of. -/
theorem Attempted.ready_iff {status : ModuleStatus} (h : Attempted status (setupsOf name log)) :
    status = .ready ↔ .initEnded name true ∈ log := by
  obtain ⟨failures, hsetups⟩ := h
  have hlast : .ended true ∈ setupsOf name log ↔ status = .ready := by
    rw [hsetups]
    cases status <;> simp [ModuleStatus.lastSetup]
  rw [← hlast, setupsOf, List.mem_filterMap]
  constructor
  · rintro ⟨event, hevent, htold⟩
    exact Event.setup?_eq_some_iff.1 htold ▸ hevent
  · intro hmem
    exact ⟨_, hmem, Event.setup?_eq_some_iff.2 rfl⟩

namespace Deployment

variable {d e : Deployment}

theorem statusOf_of_module? {m : RegisteredModule} (h : d.module? name = some m) :
    d.statusOf name = m.status := by
  rw [statusOf, h]
  rfl

theorem statusOf_eq_ready_iff : d.statusOf name = .ready ↔ d.isReady name = true := by
  rw [statusOf, isReady]
  cases d.module? name <;> simp

theorem statusOf_congr (h : e.module? name = d.module? name) : e.statusOf name = d.statusOf name := by
  rw [statusOf, statusOf, h]

theorem statusOf_of_not_mem (h : name ∉ d.moduleNames) : d.statusOf name = .pending := by
  rw [mem_moduleNames, not_exists] at h
  rw [statusOf, Option.eq_none_iff_forall_ne_some.2 h]
  rfl

/-- A module that has just been registered is still to be set up. -/
theorem statusOf_registered {module : Module} (h : d.module? module.name = none)
    (hmodules : e.modules = d.modules ++ [{ module, attempts := 0, status := .pending }]) :
    e.statusOf name = d.statusOf name := by
  rw [statusOf, statusOf, module?_of_append hmodules]
  by_cases hname : module.name = name
  · subst hname
    simp [h]
  · simp [hname]

end Deployment

namespace Session

variable {s t : Session}

/-- The setups of a module that are told of between two moments fit to those that were told of
    before. -/
def Attempts (name : String) (s : Session) (new : List Event) (t : Session) : Prop :=
  ∀ setups, Attempted (s.deployment.statusOf name) setups →
    Attempted (t.deployment.statusOf name) (setups ++ setupsOf name new)

theorem Attempts.silent {new : List Event} (h : t.deployment.statusOf name = s.deployment.statusOf name)
    (hnew : setupsOf name new = []) : Attempts name s new t := by
  intro setups hsetups
  rw [h, hnew, List.append_nil]
  exact hsetups

/-- **One move.** -/
theorem Move.attempted (h : Move s t) (name : String) :
    ∃ new, t.events = s.events ++ new ∧ Attempts name s new t := by
  cases h with
  | deploys step modules_eq =>
    refine ⟨[], (List.append_nil _).symm, .silent (Deployment.statusOf_congr ?_) rfl⟩
    rw [Deployment.module?, modules_eq]
    rfl
  | registers accepted =>
    obtain ⟨hnew, tree, -, rfl⟩ := Deployment.registerModule_ok accepted
    exact ⟨[], (List.append_nil _).symm, .silent (Deployment.statusOf_registered hnew rfl) rfl⟩
  | @beginsSetup other m registered pending =>
    refine ⟨_, events_record _ _, ?_⟩
    by_cases hname : other = name
    · subst hname
      intro setups hsetups
      rw [Deployment.statusOf_of_module? registered, pending] at hsetups
      have hstatus : (s.beginSetup other).deployment.statusOf other = .running :=
        Deployment.statusOf_of_module? (Deployment.module?_beginInit registered)
      rw [hstatus, setupsOf_began]
      exact hsetups.begin
    · exact .silent (Deployment.statusOf_congr (Deployment.module?_beginInit_of_ne (Ne.symm hname)))
        (setupsOf_began_of_ne hname)
  | @endsSetup other m verdict registered running =>
    refine ⟨_, events_record _ _, ?_⟩
    by_cases hname : other = name
    · subst hname
      intro setups hsetups
      rw [Deployment.statusOf_of_module? registered, running] at hsetups
      have hstatus : (s.endSetup other verdict).deployment.statusOf other =
          if verdict.isOk then .ready else .pending :=
        Deployment.statusOf_of_module? (Deployment.module?_endInit registered _)
      rw [hstatus, setupsOf_ended]
      exact hsetups.end verdict.isOk
    · exact .silent
        (Deployment.statusOf_congr (Deployment.module?_endInit_of_ne (Ne.symm hname) _))
        (setupsOf_ended_of_ne hname _)
  | files => exact ⟨[], (List.append_nil _).symm, .silent rfl rfl⟩
  | @notes event plain =>
    refine ⟨_, events_record _ _, .silent rfl ?_⟩
    cases event <;> first | rfl | cases plain
  | _ => exact ⟨_, events_record _ _, .silent rfl rfl⟩

/-- **Any number of moves.** -/
theorem Moves.attempted (h : Moves s t) (name : String) :
    ∃ new, t.events = s.events ++ new ∧ Attempts name s new t := by
  refine h.told (fun _ => .silent rfl rfl) ?_ fun hmove => hmove.attempted name
  intro s t u new more hnew hmore setups hsetups
  have hboth := hmore _ (hnew setups hsetups)
  rwa [List.append_assoc, ← setupsOf_append] at hboth

theorem Moves.attempts (h : Moves s t) {new : List Event} (told : t.events = s.events ++ new)
    (name : String) : Attempts name s new t := by
  obtain ⟨new', hnew, hattempts⟩ := h.attempted name
  obtain rfl : new = new' := List.append_cancel_left (told.symm.trans hnew)
  exact hattempts

end Session

/-! ### Lives with their journals -/

namespace Deployment

/-- The life of a deployment, with all that the journals of its sessions tell of it. -/
inductive Chronicle (settings : EngineSettings) : Deployment → List Event → Prop
  | opened : Chronicle settings (.empty settings) []
  | performed {s t : Session} {depth : Nat} {request : Request} {reply : Reply}
      {log new : List Event} (earlier : Chronicle settings s.deployment log)
      (performs : (perform (nested depth) request).run s = .ok (reply, t))
      (told : t.events = s.events ++ new) : Chronicle settings t.deployment (log ++ new)
  | initBegun {d : Deployment} {log : List Event} {name : String} {m : RegisteredModule}
      (earlier : Chronicle settings d log) (registered : d.module? name = some m)
      (pending : m.status = .pending) :
      Chronicle settings (d.beginInit name) (log ++ [.initBegan name])

variable {settings : EngineSettings} {d : Deployment}

theorem Chronicle.reachable (h : Chronicle settings d log) : Reachable settings d := by
  induction h with
  | opened => exact .now _
  | performed _ performs _ ih => exact .performed ih performs
  | initBegun _ registered pending ih => exact .initBegun ih registered pending

/-- A request adds to what is told of a deployment whatever it adds to the journal. -/
theorem Chronicle.perform {s t : Session} {depth : Nat} {request : Request} {reply : Reply}
    (h : Chronicle settings s.deployment log)
    (hperform : (Session.perform (nested depth) request).run s = .ok (reply, t)) :
    ∃ new, t.events = s.events ++ new ∧ Chronicle settings t.deployment (log ++ new) := by
  have hmoves := (keeps_perform (keeping_nested depth) request s _ t hperform).moves
  obtain ⟨new, hnew⟩ := hmoves.exists_new
  exact ⟨new, hnew, h.performed hperform hnew⟩

/-- Whatever can be reached has been told of. -/
theorem Reachable.exists_chronicle (h : Reachable settings d) : ∃ log, Chronicle settings d log := by
  induction h with
  | now => exact ⟨[], .opened⟩
  | performed _ performs ih =>
    obtain ⟨log, hlog⟩ := ih
    obtain ⟨new, -, hnew⟩ := hlog.perform performs
    exact ⟨_, hnew⟩
  | initBegun _ registered pending ih =>
    obtain ⟨log, hlog⟩ := ih
    exact ⟨_, hlog.initBegun registered pending⟩

/-- **The setups of a module** are what its status says. -/
theorem Chronicle.attempted (h : Chronicle settings d log) (name : String) :
    Attempted (d.statusOf name) (setupsOf name log) := by
  induction h with
  | opened => exact .nil
  | @performed s t depth request _ log new _ performs told ih =>
    have hmoves := (keeps_perform (keeping_nested depth) request s _ t performs).moves
    rw [setupsOf_append]
    exact hmoves.attempts told name _ ih
  | @initBegun d log other m _ registered pending ih =>
    rw [setupsOf_append]
    by_cases hname : other = name
    · subst hname
      rw [statusOf_of_module? registered, pending] at ih
      rw [statusOf_of_module? (module?_beginInit registered), setupsOf_began]
      exact ih.begin
    · rw [statusOf_congr (module?_beginInit_of_ne (Ne.symm hname)), setupsOf_began_of_ne hname,
        List.append_nil]
      exact ih

theorem Chronicle.success_mem (h : Chronicle settings d log) (hready : d.isReady name = true) :
    .initEnded name true ∈ log :=
  (h.attempted name).ready_iff.1 (statusOf_eq_ready_iff.2 hready)

theorem Reachable.isReady_of_engagedAt (h : Reachable settings d) {id : NodeId}
    (hname : name ∈ d.engagedAt id) : d.isReady name = true := by
  refine isReady_of_engaged (Later.steps h) ?_ id name hname
  intro id name hname
  cases id <;> cases hname

theorem Reachable.nodup_moduleNames (h : Reachable settings d) : d.moduleNames.Nodup := by
  apply nodup_moduleNames_of_steps (Later.steps h)
  simp [moduleNames, empty]

/-! ### Chains -/

/-- A chain that is cached under a key, or that is the answer to whoever asks for that key. -/
def Offers (d : Deployment) (key : ChainKey) (chain : Chain Handler) : Prop :=
  (∃ cached, (key, cached) ∈ d.cache ∧ cached.chain = chain) ∨ ∃ e, d.chain key = .ok (chain, e)

/-- Where a handler of a chain comes from. -/
theorem Coherent.mem_links_of_offers (h : d.Coherent) {key : ChainKey} {chain : Chain Handler}
    (hoffers : d.Offers key chain) :
    ∃ id, d.tree.operation? key.service key.operation = some id ∧
      ∀ link ∈ chain.links, (∃ i ∈ d.tree.ancestry id, link ∈ d.declaredAt i key.flow) ∨
        ∃ name ∈ d.engagedOnWay id, link ∈ d.moduleHandlers key.flow name := by
  obtain ⟨id, hid, hresolve⟩ : ∃ id, d.tree.operation? key.service key.operation = some id ∧
      d.resolveAt id key.flow = .ok chain := by
    rcases hoffers with ⟨cached, hmem, rfl⟩ | ⟨e, hchain⟩
    · exact h.cached _ hmem
    · exact h.resolveAt_of_chain hchain
  refine ⟨id, hid, fun link hlink => ?_⟩
  have hcontributed := (perm_of_resolve hresolve).mem_iff.1 hlink
  rcases List.mem_append.1 ((contributions_perm d id key.flow).mem_iff.1 hcontributed) with hm | hd
  · exact Or.inr (List.mem_flatMap.1 hm)
  · obtain ⟨i, hi, hmem⟩ := List.mem_flatMap.1 hd
    exact Or.inl ⟨i, List.mem_reverse.1 hi, hmem⟩

/-- **Setups are made until one succeeds, and whoever has a handler has been set up.**  The journals
    tell of failures up to a success for each module, and of nothing behind; and the setup of every
    module that is engaged anywhere, and so of every module that has a handler in a chain, cached or
    answered, has succeeded before. -/
theorem Reachable.setup_succeeds_once (h : Reachable settings d) :
    (∃ log, Chronicle settings d log) ∧
    ∀ log, Chronicle settings d log →
      (∀ name, Attempted (d.statusOf name) (setupsOf name log)) ∧
      (∀ id, ∀ name ∈ d.engagedAt id, d.isReady name = true ∧ .initEnded name true ∈ log) ∧
      ∀ key chain, d.Offers key chain →
        ∃ id, d.tree.operation? key.service key.operation = some id ∧
          ∀ link ∈ chain.links, (∃ i ∈ d.tree.ancestry id, link ∈ d.declaredAt i key.flow) ∨
            ∃ name ∈ d.engagedOnWay id, link ∈ d.moduleHandlers key.flow name ∧
              d.isReady name = true ∧ .initEnded name true ∈ log := by
  refine ⟨h.exists_chronicle, fun log hlog => ?_⟩
  have hengaged : ∀ id, ∀ name ∈ d.engagedAt id,
      d.isReady name = true ∧ .initEnded name true ∈ log := by
    intro id name hname
    have hready := h.isReady_of_engagedAt hname
    exact ⟨hready, hlog.success_mem hready⟩
  refine ⟨hlog.attempted, hengaged, fun key chain hoffers => ?_⟩
  obtain ⟨id, hid, hlinks⟩ := h.coherent.mem_links_of_offers hoffers
  refine ⟨id, hid, fun link hlink => (hlinks link hlink).imp_right ?_⟩
  rintro ⟨name, hname, hmem⟩
  obtain ⟨i, -, hi⟩ := mem_engagedOnWay.1 hname
  exact ⟨name, hname, hmem, hengaged i name hi⟩

/-- What is told of the building of a deployment, as far as it can be checked. -/
theorem exists_chronicle_of_build (settings : EngineSettings) (depth : Nat)
    (requests : List Request) (p : Session → Prop) [DecidablePred p]
    (h : (match (Session.build (nested depth) requests).run (.create .deployed (.empty settings)) with
      | .ok (_, s) => decide (p s)
      | .error _ => false) = true) :
    ∃ s : Session, Chronicle settings s.deployment s.events ∧ p s := by
  split at h
  · rename_i result s hbuild
    refine ⟨s, ?_, of_decide_eq_true h⟩
    refine build_keeps (P := fun s => Chronicle settings s.deployment s.events) ?_ hbuild .opened
    intro s t request reply hperform hs
    obtain ⟨new, hnew, ht⟩ := hs.perform hperform
    rwa [hnew]
  · cases h

/-- A module whose first setup fails. -/
def stubbornModule : Module where
  name := "stubborn"
  handlers
    | .inbound => [⟨{ name := "audit", phase := "Dispatch" }, .done (.ok .proceed)⟩]
    | _ => []
  init attempts := .done (if attempts = 0 then .error { message := "not yet" } else .ok ())
  shutdown := .done (.ok ())

/-- A module whose setup asks for that of the stubborn one. -/
def impatientModule : Module where
  name := "impatient"
  handlers _ := []
  init _ := .ask (.initModule "stubborn") fun _ => .done (.ok ())
  shutdown := .done (.ok ())

/-- The setup of the stubborn module fails inside that of another one, and succeeds when it is
    engaged, after which nobody sets it up again.  Then its handler is in a cached chain. -/
theorem setup_succeeds_once_of_stubborn_module :
    ∃ d log chain, Reachable {} d ∧ Chronicle {} d log ∧
      setupsOf "stubborn" log = [.began, .ended false, .began, .ended true] ∧
      Attempted (d.statusOf "stubborn") (setupsOf "stubborn" log) ∧
      d.engagedAt rootId = ["stubborn"] ∧ .initEnded "stubborn" true ∈ log ∧
      d.Offers ⟨"orders", "place", .inbound⟩ chain ∧ chain.handlerNames = ["audit"] ∧
      ∃ id, d.tree.operation? "orders" "place" = some id ∧
        ∀ link ∈ chain.links, (∃ i ∈ d.tree.ancestry id, link ∈ d.declaredAt i .inbound) ∨
          ∃ name ∈ d.engagedOnWay id, link ∈ d.moduleHandlers .inbound name ∧
            d.isReady name = true ∧ .initEnded name true ∈ log := by
  obtain ⟨s, hs, hsetups, hengaged, hnames⟩ := exists_chronicle_of_build {} 2
    [.addService "orders", .addOperation "orders" "place", .registerModule impatientModule,
      .registerModule stubbornModule, .initModule "impatient", .engage "stubborn" .everywhere,
      .initModules, .engage "stubborn" .everywhere, .chain "orders" "place" .inbound]
    (fun s => setupsOf "stubborn" s.events = [.began, .ended false, .began, .ended true] ∧
      s.deployment.engagedAt rootId = ["stubborn"] ∧
      (s.deployment.cached? ⟨"orders", "place", .inbound⟩).map (·.chain.handlerNames) =
        some ["audit"])
    (by decide +kernel)
  obtain ⟨cached, hcached, hnames⟩ := Option.map_eq_some_iff.1 hnames
  obtain ⟨before, after, hcache, -⟩ := List.lookup_eq_some_iff.1 hcached
  have hoffers : s.deployment.Offers ⟨"orders", "place", .inbound⟩ cached.chain :=
    Or.inl ⟨cached, by simp [hcache], rfl⟩
  obtain ⟨-, htold⟩ := hs.reachable.setup_succeeds_once
  obtain ⟨hattempted, hready, hchains⟩ := htold s.events hs
  have hsucceeded := (hready rootId "stubborn" (by simp [hengaged])).2
  exact ⟨s.deployment, s.events, cached.chain, hs.reachable, hs, hsetups, hattempted _, hengaged,
    hsucceeded, hoffers, hnames, hchains _ _ hoffers⟩

end Deployment

end ExchangePipeline
