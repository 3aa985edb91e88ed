/-
  ExchangePipeline/Proofs/Session/Permits.lean
  ============================================
  **Permits are conserved.**

  A gate has so many permits, and the dispatch of an exchange takes one of them from
  the moment when it is let in until the walk is over.  A handler may have other
  exchanges dispatched meanwhile, so that dispatches stand inside each other.

  A moment in the life of a session is known by how it has come about (`Moment`).
  With it are known the dispatches that are under way, the innermost first: those
  that have been let in on the way to the moment and have not come to an end.  What
  has come to an end is one step of that way, and that has given back what it took
  (`Settles`).
-/
import ExchangePipeline.Proofs.Session.Settling

namespace ExchangePipeline

namespace Session

/-! ### Moments -/

/-- The moments in the life of a new session, each with the dispatches under way.  Between the steps
    of what is under way stand complete requests, operations and dispatches, performed on the
    outside or by handlers, setups and transports, with programs nested to any depth. -/
inductive Moment (source : ChainSource) (deployment : Deployment) :
    List (Gate × Exchange Handler) → Session → Prop where
  | opened : Moment source deployment [] (.create source deployment)
  | performed {flights : List (Gate × Exchange Handler)} {s t : Session} {depth : Nat}
      {request : Request} {reply : Reply} (before : Moment source deployment flights s)
      (performs : (perform (nested depth) request).run s = .ok (reply, t)) :
      Moment source deployment flights t
  | operated {flights : List (Gate × Exchange Handler)} {s t : Session} {depth : Nat}
      {op : ExchangeOp} {x y : Exchange Handler} {reply : Reply}
      (before : Moment source deployment flights s)
      (performs : (performOn (nested depth) op x).run s = .ok ((reply, y), t)) :
      Moment source deployment flights t
  /-- Only the walk itself has an exchange that is running. -/
  | dispatched {flights : List (Gate × Exchange Handler)} {s t : Session} {depth : Nat}
      {gate : Gate} {x : Exchange Handler} {handed : Dispatched}
      (before : Moment source deployment flights s) (atRest : x.state ≠ .running)
      (dispatches : (dispatch (nested depth) gate x).run s = .ok (handed, t)) :
      Moment source deployment flights t
  /-- An exchange is taken out, to be operated on or dispatched. -/
  | takenOut {flights : List (Gate × Exchange Handler)} {s : Session}
      (before : Moment source deployment flights s) (name : String) :
      Moment source deployment flights { s with exchanges := Dict.erase name s.exchanges }
  | filed {flights : List (Gate × Exchange Handler)} {s : Session} {x : Exchange Handler}
      (before : Moment source deployment flights s) (name : String) (atRest : x.state ≠ .running) :
      Moment source deployment flights { s with exchanges := Dict.insert name x s.exchanges }
  /-- A dispatch is let in, and is under way from now on. -/
  | admitted {flights : List (Gate × Exchange Handler)} {s : Session} {gate : Gate} {free : Nat}
      (before : Moment source deployment flights s) (x : Exchange Handler)
      (available : s.permits gate = free + 1) :
      Moment source deployment ((gate, x) :: flights) (s.letIn gate free x)
  /-- A driving call is under way, and has come so far. -/
  | walked {flights : List (Gate × Exchange Handler)} {s t u : Session} {depth : Nat}
      {call : Call Handler} {x : Exchange Handler} {first stage : Stage Handler}
      (before : Moment source deployment flights s)
      (begins : call.Begins (host (nested depth)) (x, s) (first, u))
      (turns : (host (nested depth)).Turns (first, u) (stage, t)) :
      Moment source deployment flights t
  | invoked {flights : List (Gate × Exchange Handler)} {s : Session} {id : Nat}
      (before : Moment source deployment flights s) (link : Link Handler)
      (unrequested : s.isTripped id = false) :
      Moment source deployment flights (s.record (.invoked id link))
  | setupBegun {flights : List (Gate × Exchange Handler)} {s : Session} {name : String}
      {m : RegisteredModule} (before : Moment source deployment flights s)
      (registered : s.deployment.module? name = some m) (pending : m.status = .pending) :
      Moment source deployment flights (s.beginSetup name)
  | noted {flights : List (Gate × Exchange Handler)} {s : Session} {event : Event}
      (before : Moment source deployment flights s) (plain : event.Plain) :
      Moment source deployment flights (s.record event)

variable {source : ChainSource} {deployment : Deployment}
  {flights : List (Gate × Exchange Handler)} {inner : Inner} {gate : Gate} {s t : Session}
  {x : Exchange Handler}

/-- The number of the dispatches under way at a gate. -/
def inFlight (flights : List (Gate × Exchange Handler)) (gate : Gate) : Nat :=
  flights.countP fun flight => flight.1 = gate

@[simp] theorem inFlight_nil (gate : Gate) : inFlight [] gate = 0 := rfl

@[simp] theorem inFlight_cons (other : Gate) (x : Exchange Handler) (gate : Gate) :
    inFlight ((other, x) :: flights) gate = inFlight flights gate + if other = gate then 1 else 0 := by
  simp [inFlight, List.countP_cons]

theorem permits_letIn (gate : Gate) (free : Nat) (x : Exchange Handler) (other : Gate) :
    (s.letIn gate free x).permits other = if other = gate then free else s.permits other :=
  rfl

/-- **At every moment** the free permits and the dispatches under way make up the permits of a
    gate. -/
theorem Moment.permits_add_inFlight (h : Moment source deployment flights s) (gate : Gate) :
    s.permits gate + inFlight flights gate = deployment.settings.maxConcurrentExchanges.toNat := by
  induction h with
  | opened => simp [create]
  | @performed _ _ _ depth request _ _ performs ih =>
    rw [(settles_perform depth request _ _ _ performs).permits]
    exact ih
  | @operated _ _ _ depth op x _ _ _ performs ih =>
    rw [(settles_performOn (settling_nested depth) op x _ _ _ performs).permits]
    exact ih
  | @dispatched _ _ _ depth _ _ _ _ _ dispatches ih =>
    rw [permits_of_dispatch (settling_nested depth) dispatches]
    exact ih
  | takenOut _ _ ih => exact ih
  | filed _ _ _ ih => exact ih
  | @admitted _ s other free _ x available ih =>
    rw [permits_letIn, inFlight_cons]
    by_cases hgate : gate = other
    · subst hgate
      simp only [if_true]
      omega
    · rw [if_neg hgate, if_neg (Ne.symm hgate)]
      exact ih
  | @walked _ _ _ _ depth _ _ _ _ _ begins turns ih =>
    have hhost := settling_host (settling_nested depth)
    rw [((hhost.begins begins).trans (hhost.turns turns)).permits]
    exact ih
  | invoked _ _ _ ih => exact ih
  | setupBegun _ _ _ ih => exact ih
  | noted _ _ ih => exact ih

/-! ### Turning away -/

/-- What is let in is not handed back as overloaded, whatever becomes of it. -/
theorem overloaded_iff {handed : Dispatched}
    (hrun : (dispatch inner gate x).run s = .ok (handed, t)) :
    handed.1 = .error .overloaded ↔ s.permits gate = 0 := by
  rcases dispatch_cases hrun with ⟨hfull, rfl, -⟩ | ⟨free, ⟨result, y⟩, u, hfree, -, rfl, -⟩
  · simp [hfull]
  · cases result <;> simp [Except.mapError, hfree]

/-- **Permits are conserved.**  At every moment the free permits of a gate and the dispatches that
    are under way there make up what the settings allow.  A dispatch is turned away, and then at
    once, if and only if so many are under way; whatever it comes to, it leaves as many permits as
    it found.  Where none is under way all permits are free, whatever exchanges are paused. -/
theorem Moment.permits_are_conserved (h : Moment source deployment flights s) (gate : Gate) :
    let most := deployment.settings.maxConcurrentExchanges.toNat
    s.permits gate + inFlight flights gate = most ∧
    (inFlight flights gate = most → ∀ inner x,
      (dispatch inner gate x).run s = .ok ((.error .overloaded, x), s.turnAway gate x)) ∧
    (∀ depth x handed t, (dispatch (nested depth) gate x).run s = .ok (handed, t) →
      (handed.1 = .error .overloaded ↔ inFlight flights gate = most) ∧ t.permits = s.permits) ∧
    (inFlight flights gate = 0 → s.permits gate = most) := by
  intro most
  have hsum : s.permits gate + inFlight flights gate = most := h.permits_add_inFlight gate
  refine ⟨hsum, fun hmost inner x => run_dispatch_of_full (by omega), ?_, fun hnone => by omega⟩
  intro depth x handed t hrun
  refine ⟨?_, permits_of_dispatch (settling_nested depth) hrun⟩
  rw [overloaded_iff hrun]
  constructor <;> intro _ <;> omega

/-- What requests lead to when they are performed one after the other, as far as it can be
    checked. -/
theorem exists_moment (source : ChainSource) (deployment : Deployment) (depth : Nat)
    (requests : List Request) (p : Session → Prop) [DecidablePred p]
    (h : (match (build (nested depth) requests).run (.create source deployment) with
      | .ok (_, s) => decide (p s)
      | .error _ => false) = true) :
    ∃ s, Moment source deployment [] s ∧ p s := by
  split at h
  · rename_i result s hbuild
    have hmoment : Moment source deployment [] s :=
      Deployment.build_keeps (fun hperform hmoment => .performed hmoment hperform) hbuild .opened
    exact ⟨s, hmoment, of_decide_eq_true h⟩
  · cases h

/-- Exchanges that all wait for something. -/
def waiting : ChainSource :=
  .fixed (.uniform ["Dispatch"]) [(.inbound, [⟨{ name := "wait", phase := "Dispatch" },
    .ask (.own .pause) fun _ => .done (.ok .proceed)⟩])]

/-- An exchange that has paused holds no permit.  The only one there is goes to the next exchange,
    and as long as that is under way, everything else is turned away. -/
theorem permits_are_conserved_of_waiting_exchange :
    ∃ s, Moment waiting (.empty { maxConcurrentExchanges := 1 }) [] s ∧
      (Dict.find? "first" s.exchanges).map (·.state) = some .paused ∧
      s.permits .pipeline = 1 ∧
      ∀ inner x y, (dispatch inner .pipeline y).run (s.letIn .pipeline 0 x) =
        .ok ((.error .overloaded, y), (s.letIn .pipeline 0 x).turnAway .pipeline y) := by
  obtain ⟨s, hmoment, hpaused⟩ := exists_moment waiting (.empty { maxConcurrentExchanges := 1 }) 1
    [.open "first" "orders" "place" .inbound none none, .dispatch .pipeline "first"]
    (fun s => (Dict.find? "first" s.exchanges).map (·.state) = some .paused) (by decide +kernel)
  obtain ⟨-, -, -, hfree⟩ := hmoment.permits_are_conserved .pipeline
  have hone : s.permits .pipeline = 1 := hfree rfl
  refine ⟨s, hmoment, hpaused, hone, fun inner x y => ?_⟩
  obtain ⟨-, hfull, -⟩ := (hmoment.admitted x hone).permits_are_conserved .pipeline
  exact hfull rfl inner y

end Session

end ExchangePipeline
