/-
  ExchangePipeline/Proofs/Session/Settling.lean
  =============================================
  **What is over has given back what it took.**

  A request may have exchanges dispatched, and their handlers may dispatch others.
  When it is over, so are all walks that it has begun: the permits are where they
  were (`Settles.permits`), no exchange has been put among the others that is still
  running, and each dispatch has handed back what its outcome says
  (`Settles.orderly`).  This holds of every request and, by induction on the levels,
  of every program.
-/
import ExchangePipeline.Proofs.Session.StateMachine

namespace ExchangePipeline

namespace Session

variable {inner : Inner} {depth : Nat} {s t u : Session} {x y : Exchange Handler}
  {gate : Gate} {handed : Dispatched}

/-! ### What a dispatch hands back -/

/-- The outcome of a dispatch agrees with the exchange as it came and as it is handed back. -/
structure Matches (x : Exchange Handler) (handed : Dispatched) : Prop where
  paused : outcomeOf handed = .paused ↔ handed.2.state = .paused
  completed : outcomeOf handed = .completed ↔
    x.state ≠ .completed ∧ handed.2.state = .completed ∧ handed.2.fault?.isSome = false
  faultHandled : outcomeOf handed = .faultHandled ↔
    x.state ≠ .completed ∧ handed.2.state = .completed ∧ handed.2.fault?.isSome = true
  faulted : outcomeOf handed = .cancelled ∨ outcomeOf handed = .unrecoverable ∨
    outcomeOf handed = .resolutionError ↔ x.state ≠ .faulted ∧ handed.2.state = .faulted
  invalidState : outcomeOf handed = .invalidState ↔ x.state.isTerminal = true
  overloaded : outcomeOf handed ≠ .overloaded

theorem matches_of_settled {driven : Driven Handler} (hx : x.state = .created ∨ x.state = .paused)
    (h : Settled driven) : Matches x (driven.1.mapError .failed, driven.2) := by
  obtain ⟨result, y⟩ := driven
  have hcompleted : x.state ≠ .completed := by rcases hx with hx | hx <;> simp [hx]
  have hfaulted : x.state ≠ .faulted := by rcases hx with hx | hx <;> simp [hx]
  have hterminal : x.state.isTerminal = false := by rcases hx with hx | hx <;> simp [hx] <;> rfl
  rcases result with error | ⟨_ | _⟩
  · have hy : y.state = .faulted := by
      rcases h.atRest with hy | hy | hy
      · cases h.completed.2 hy
      · cases h.paused.2 hy
      · exact hy
    -- an error of a driving call that was possible is not about the state
    obtain ⟨_, heq, hother⟩ := h.faulted.2 hy
    cases heq
    cases error with
    | invalidState id state call => exact absurd rfl (hother id state call)
    | _ => constructor <;> simp_all [outcomeOf, Except.mapError]
  · have hy : y.state = .completed := h.completed.1 rfl
    cases hfault : y.fault?.isSome <;> constructor <;> simp_all [outcomeOf, Except.mapError]
  · have hy : y.state = .paused := h.paused.1 rfl
    constructor <;> simp_all [outcomeOf, Except.mapError]

theorem matches_of_refused (hx : x.state.isTerminal = true) (id : Nat) (state : ExchangeState)
    (call : DrivingCall) : Matches x (.error (.failed (.invalidState id state call)), x) := by
  have hpaused : x.state ≠ .paused := by
    intro hstate
    rw [hstate] at hx
    cases hx
  constructor <;> simp_all [outcomeOf]

/-- Starting an exchange that is at rest, or going on with it, ends in what its outcome says. -/
theorem matches_of_startOrResume {driven : Driven Handler} (hx : x.state ≠ .running)
    (hrun : (startOrResume (nested depth) x).run s = .ok (driven, t)) :
    driven.2.state ≠ .running ∧ Matches x (driven.1.mapError .failed, driven.2) := by
  obtain ⟨call, hcall, hallowed⟩ : ∃ call : Call Handler,
      (call.perform (host (nested depth)) x).run s = .ok (driven, t) ∧
        (call.AllowedIn x.state ↔ x.state = .created ∨ x.state = .paused) := by
    unfold startOrResume at hrun
    split at hrun
    · rename_i hpaused
      exact ⟨.resume, hrun, by simp [Call.AllowedIn, hpaused]⟩
    · rename_i hpaused
      exact ⟨.run, hrun, by simp [Call.AllowedIn, hpaused]⟩
  by_cases hstate : x.state = .created ∨ x.state = .paused
  · obtain ⟨-, hsettled⟩ := (steady_host depth).perform_moves trivial (hallowed.2 hstate) hcall
    refine ⟨?_, matches_of_settled hstate hsettled⟩
    rcases hsettled.atRest with hy | hy | hy <;> simp [hy]
  · rw [call.perform_of_not_allowed _ (mt hallowed.1 hstate)] at hcall
    cases hcall
    have hterminal : x.state.isTerminal = true := by
      cases hs : x.state <;> simp_all [ExchangeState.isTerminal]
    exact ⟨hx, matches_of_refused hterminal ..⟩

/-- An operation on an exchange that is at rest leaves it at rest. -/
theorem performOn_atRest {op : ExchangeOp} {reply : Reply} (hx : x.state ≠ .running)
    (hrun : (performOn (nested depth) op x).run s = .ok ((reply, y), t)) : y.state ≠ .running := by
  cases hcall : op.call? s x with
  | some call =>
    by_cases hpossible : call.AllowedIn x.state
    · obtain ⟨result, -, -, hsettled⟩ := performOn_allowed hcall hpossible hrun
      rcases hsettled.atRest with hy | hy | hy <;> simp [show y.state = _ from hy]
    · rwa [(performOn_refused hcall hpossible hrun).2.1]
  | none =>
    by_cases hop : op = .cancel
    · subst hop
      obtain ⟨result, hcancel, -⟩ := performOn_cancel hrun
      obtain ⟨-, -, -, hy, -⟩ | ⟨-, -, rfl, -⟩ := cancel_moves hcancel
      · simp [hy]
      · exact hx
    · rwa [(touched_of_other hcall hop hrun).state_eq]

/-! ### Settling -/

/-- No exchange is filed while it is running, and what was dispatched is as its outcome says. -/
structure Orderly (s : Session) : Prop where
  resting : ∀ name x, Dict.find? name s.exchanges = some x → x.state ≠ .running
  matched : ∀ gate x handed, .left gate x handed ∈ s.journal → Matches x handed

theorem orderly_create (source : ChainSource) (deployment : Deployment) :
    (create source deployment).Orderly := by
  constructor <;> simp [create]

/-- All that was begun between two moments is over. -/
structure Settles (s t : Session) : Prop where
  permits : t.permits = s.permits
  orderly : s.Orderly → t.Orderly

instance : IsPreorder Session Settles where
  refl _ := ⟨rfl, id⟩
  trans _ _ _ h h' := ⟨h'.permits.trans h.permits, h'.orderly ∘ h.orderly⟩

theorem Settles.refl (s : Session) : s.Settles s :=
  refl_of Settles s

theorem Settles.trans (h : s.Settles t) (h' : t.Settles u) : s.Settles u :=
  trans_of Settles h h'

theorem Orderly.congr (h : s.Orderly) (hexchanges : t.exchanges = s.exchanges)
    (hjournal : t.journal = s.journal) : t.Orderly := by
  refine ⟨?_, ?_⟩
  · rw [hexchanges]
    exact h.resting
  · rw [hjournal]
    exact h.matched

/-- An event that does not end a dispatch. -/
theorem Orderly.record {event : Event} (hevent : ∀ gate x handed, event ≠ .left gate x handed)
    (h : s.Orderly) : (s.record event).Orderly := by
  refine ⟨h.resting, fun gate x handed hmem => ?_⟩
  rcases List.mem_cons.1 hmem with heq | hmem
  · exact absurd heq.symm (hevent gate x handed)
  · exact h.matched gate x handed hmem

theorem Orderly.erase (h : s.Orderly) (name : String) :
    { s with exchanges := Dict.erase name s.exchanges }.Orderly := by
  refine ⟨fun other x hx => ?_, h.matched⟩
  by_cases hname : other = name
  · subst hname
    simp at hx
  · rw [Dict.find?_erase_of_ne hname] at hx
    exact h.resting other x hx

theorem Orderly.insert (h : s.Orderly) (name : String) (hx : x.state ≠ .running) :
    { s with exchanges := Dict.insert name x s.exchanges }.Orderly := by
  refine ⟨fun other y hy => ?_, h.matched⟩
  rw [Dict.find?_insert] at hy
  split at hy
  · cases hy
    exact hx
  · exact h.resting other y hy

theorem Orderly.release (h : s.Orderly) (gate : Gate) (hmatches : Matches x handed) :
    (s.release gate x handed).Orderly := by
  refine ⟨h.resting, fun gate' x' handed' hmem => ?_⟩
  rcases List.mem_cons.1 hmem with heq | hmem
  · cases heq
    exact hmatches
  · exact h.matched gate' x' handed' hmem

/-- What has nothing to do with exchanges. -/
theorem Settles.of_eq (hpermits : t.permits = s.permits) (hexchanges : t.exchanges = s.exchanges)
    (hjournal : t.journal = s.journal) : s.Settles t :=
  ⟨hpermits, fun h => h.congr hexchanges hjournal⟩

theorem Settles.record {event : Event} (hevent : ∀ gate x handed, event ≠ .left gate x handed) :
    s.Settles (s.record event) :=
  ⟨rfl, fun h => h.record hevent⟩

theorem Settles.note {event : Event} (h : event.Plain) : s.Settles (s.record event) := by
  refine .record ?_
  rintro gate x handed rfl
  cases h

theorem Settles.trip (id : Nat) (s : Session) : s.Settles (s.trip id) := by
  have hnoted : s.Settles (s.record (.tripped id)) := .record fun _ _ _ h => by cases h
  exact hnoted.trans (.of_eq rfl rfl rfl)

theorem Settles.openExchange (name service operation : String) (direction : Flow)
    (payload : Option (List UInt8)) (transport : Option TransportBinding) (s : Session) :
    s.Settles (s.openExchange name service operation direction payload transport) := by
  refine ⟨rfl, fun h => ?_⟩
  have hfresh : (Exchange.create s.nextExchange service operation direction payload transport :
      Exchange Handler).state ≠ .running := by simp [Exchange.create]
  exact (h.insert name hfresh).congr rfl rfl

theorem settling_host (h : inner.Keeping Settles) : (host inner).Keeping Settles where
  chainFor := keeps_chainFor fun _ => .of_eq rfl rfl rfl
  invoke := h.invoke
  requestCancel := Settles.trip

/-! ### Operations with outside code inside -/

theorem SetsUp.settles (h : inner.Keeping Settles) {name : String} {verdict : Verdict}
    (hsetup : SetsUp inner name verdict s t) : s.Settles t := by
  obtain ⟨m, u, -, -, hinit, rfl⟩ := hsetup
  have hinside := h.carryOut _ _ _ _ hinit
  refine ⟨hinside.permits, fun hs => ?_⟩
  have hbegun : (s.beginSetup name).Orderly := .record (by simp) (hs.congr rfl rfl)
  exact .record (by simp) ((hinside.orderly hbegun).congr rfl rfl)

theorem settles_initModule (h : inner.Keeping Settles) (name : String) :
    Keeps Settles (initModule inner name) := by
  intro s result t hrun
  rcases initModule_cases hrun with ⟨-, -, rfl⟩ | ⟨-, -, rfl⟩ | ⟨verdict, hsetup, -⟩
  · exact .refl _
  · exact .refl _
  · exact hsetup.settles h

theorem settles_engage (h : inner.Keeping Settles) (module : String) (scope : Scope) :
    Keeps Settles (engage inner module scope) := by
  intro s result t hrun
  rcases engage_cases hrun with ⟨-, rfl | ⟨error, hinit⟩⟩ | ⟨u, answer, e, hinit, -, -, rfl⟩
  · exact .refl _
  · exact settles_initModule h module _ _ _ hinit
  · exact (settles_initModule h module _ _ _ hinit).trans (.of_eq rfl rfl rfl)

/-! ### Exchanges -/

/-- An operation keeps the others in order, and its own exchange is put back at rest. -/
theorem settles_withExchange (name : String)
    {operation : Exchange Handler → Doing (Reply × Exchange Handler)}
    (hpermits : ∀ x, Keeps (fun s t => t.permits = s.permits) (operation x))
    (horderly : ∀ {x y s t reply}, x.state ≠ .running → s.Orderly →
      (operation x).run s = .ok ((reply, y), t) → t.Orderly ∧ y.state ≠ .running) :
    Keeps Settles (withExchange name operation) := by
  intro s reply t hrun
  rcases withExchange_cases hrun with ⟨-, -, rfl⟩ | ⟨x, y, u, hx, hop, rfl⟩
  · exact .refl _
  have hkept := hpermits x _ _ _ hop
  refine ⟨hkept, fun hs => ?_⟩
  obtain ⟨hu, hy⟩ := horderly (hs.resting name x hx) (hs.erase name) hop
  exact hu.insert name hy

theorem settles_performOn (h : (nested depth).Keeping Settles) (op : ExchangeOp)
    (x : Exchange Handler) : Keeps Settles (performOn (nested depth) op x) :=
  keeps_performOn (settling_host h) op x

theorem permits_give_back {free : Nat} (hfree : s.permits gate = free + 1)
    (hkept : u.permits = (s.setPermits gate free).permits) :
    (u.setPermits gate (u.permits gate + 1)).permits = s.permits := by
  funext other
  by_cases hother : other = gate
  · subst hother
    simp [setPermits, hkept, hfree]
  · simp [setPermits, hkept, hother]

/-- **A dispatch gives its permit back**, whatever has come of the walk. -/
theorem permits_of_dispatch (h : inner.Keeping Settles)
    (hrun : (dispatch inner gate x).run s = .ok (handed, t)) : t.permits = s.permits := by
  rcases dispatch_cases hrun with ⟨-, -, rfl⟩ | ⟨free, driven, u, hfree, hdriven, -, rfl⟩
  · rfl
  have hinside : u.permits = (s.letIn gate free x).permits :=
    (keeps_startOrResume (settling_host h) x _ _ _ hdriven).permits
  exact permits_give_back hfree hinside

theorem orderly_of_dispatch (h : (nested depth).Keeping Settles) (hx : x.state ≠ .running)
    (hs : s.Orderly) (hrun : (dispatch (nested depth) gate x).run s = .ok (handed, t)) :
    t.Orderly ∧ handed.2.state ≠ .running := by
  rcases dispatch_cases hrun with ⟨-, rfl, rfl⟩ | ⟨free, driven, u, hfree, hdriven, rfl, rfl⟩
  · exact ⟨.record (by simp) (hs.congr rfl rfl), hx⟩
  have hadmitted : (s.letIn gate free x).Orderly := .record (by simp) (hs.congr rfl rfl)
  have hinside := (keeps_startOrResume (settling_host h) x _ _ _ hdriven).orderly hadmitted
  obtain ⟨hy, hmatches⟩ := matches_of_startOrResume hx hdriven
  exact ⟨hinside.release gate hmatches, hy⟩

theorem settles_dispatchNamed (h : (nested depth).Keeping Settles) (gate : Gate) (name : String) :
    Keeps Settles (dispatchNamed (nested depth) gate name) := by
  refine settles_withExchange name (fun x s result t hrun => ?_) fun hx hs hrun => ?_
  · obtain ⟨handed, u, hdispatch, hrun⟩ := run_bind_ok.1 hrun
    cases hrun
    exact permits_of_dispatch h hdispatch
  · obtain ⟨handed, u, hdispatch, hrun⟩ := run_bind_ok.1 hrun
    cases hrun
    exact orderly_of_dispatch h hx hs hdispatch

/-! ### Everything -/

theorem settles_take {α : Type} (step : Deployment → α × Deployment) :
    Keeps Settles (take step) := by
  intro s a t hrun
  obtain ⟨e, -, rfl⟩ := take_ok hrun
  exact .of_eq rfl rfl rfl

/-- All that requests are made of settles, if programs do. -/
theorem pervades_settles (h : (nested depth).Keeping Settles) :
    PervadesAll fun _ act => Keeps Settles (act (nested depth)) where
  pure := Keeps.pure
  bind := Keeps.bind
  look hnext _ := Keeps.bind Keeps.get hnext
  notes hevent := Keeps.modify fun _ => .note hevent
  trips id := Keeps.modify fun s => .trip id s
  opens _ _ _ _ _ _ := Keeps.modify fun s => .openExchange _ _ _ _ _ _ s
  holds _ _ := Keeps.modify fun _ => .of_eq rfl rfl rfl
  asks _ := keeps_change (fun _ => .of_eq rfl rfl rfl) fun _ _ _ hstep => .chain hstep
  changes := keeps_change fun _ => .of_eq rfl rfl rfl
  declares _ _ _ := settles_take _
  registers _ := settles_take _
  connects _ _ := Keeps.modify fun _ => .of_eq rfl rfl rfl
  resolvesAll := settles_take _
  setsUp := settles_initModule h
  engages := settles_engage h
  carriesOut := h.carryOut
  operates name op := settles_withExchange name
    (fun x s a t hrun => (settles_performOn h op x s a t hrun).permits)
    fun hx hs hrun => ⟨(settles_performOn h op _ _ _ _ hrun).orderly hs, performOn_atRest hx hrun⟩
  dispatches := settles_dispatchNamed h

/-- **Programs settle**, however deep they are nested. -/
theorem settling_nested (depth : Nat) : (nested depth).Keeping Settles :=
  keeping_of_requests (fun _ _ _ _ => .record (by simp)) (fun _ h => settling_host h)
    (fun _ h => (pervades_settles h).perform) depth

/-- **Every request settles.** -/
theorem settles_perform (depth : Nat) (request : Request) :
    Keeps Settles (perform (nested depth) request) :=
  (pervades_settles (settling_nested depth)).perform request

end Session

end ExchangePipeline
