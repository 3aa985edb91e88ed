/-
  ExchangePipeline/Proofs/Session/StateMachine.lean
  =================================================
  **Operations on an exchange, and its states.**

  Whoever performs an operation on an exchange of a session does so in one way, on
  the outside and inside handlers at any depth (`performOn`).  So what can happen
  to the state of an exchange is said once, of one operation
  (`performOn_follows_states`): a driving call takes it along the moves of the state
  machine, a call that is not possible does nothing but say so, a cancellation
  fails it, and everything else leaves its state alone.  A terminal state is never
  left, whatever is done to the exchange afterwards.
-/
import ExchangePipeline.Proofs.Session.Hosting
import ExchangePipeline.Proofs.Walk.States

namespace ExchangePipeline

/-- The driving call that an operation makes; running along a chain that is not there makes none. -/
def ExchangeOp.call? (s : Session) (x : Exchange Handler) : ExchangeOp → Option (Call Handler)
  | .run => some .run
  | .resume => some .resume
  | .runChain choice => (s.chosenChain? x choice).map .runChain
  | _ => none

namespace Session

variable {depth : Nat} {inner : Inner} {op : ExchangeOp} {reply : Reply} {s t : Session}
  {x y : Exchange Handler}

/-- The handlers of a session leave an exchange where it stands. -/
theorem steady_host (depth : Nat) : (host (nested depth)).Steady fun _ => True :=
  ⟨fun _ _ => trivial, fun _ hx hrun => ⟨trivial, touched_of_invoke hx hrun⟩⟩

/-! ### One operation -/

theorem performOn_call {call : Call Handler} (h : op.call? s x = some call) :
    (performOn inner op x).run s =
      ((call.perform (host inner) x).run s).map fun result => (drivenReply result.1, result.2) := by
  have hbind : ∀ act : Doing (Driven Handler), (do return drivenReply (← act) : Doing _).run s =
      (act.run s).map fun result => (drivenReply result.1, result.2) := by
    intro act
    rw [StateT.run_bind]
    cases act.run s <;> rfl
  cases op with
  | run =>
    cases h
    exact hbind _
  | resume =>
    cases h
    exact hbind _
  | runChain choice =>
    obtain ⟨chain, hchain, rfl⟩ := Option.map_eq_some_iff.1 h
    rw [performOn_runChain_some hchain]
    exact hbind _
  | _ => cases h

theorem performOn_cancel
    (hrun : (performOn inner .cancel x).run s = .ok ((reply, y), t)) :
    ∃ result, ((host inner).cancel x).run s = .ok ((result, y), t) ∧
      reply = match result with
        | .ok () => .nothing
        | .error error => .refused (.execution error) := by
  obtain ⟨⟨result, z⟩, u, hcancel, hrun⟩ := run_bind_ok.1 hrun
  cases result with
  | ok _ =>
    cases hrun
    exact ⟨_, hcancel, rfl⟩
  | error error =>
    cases hrun
    exact ⟨_, hcancel, rfl⟩

/-- What is neither a driving call nor a cancellation may be done to an exchange by anyone. -/
theorem touched_of_other (hcall : op.call? s x = none) (hcancel : op ≠ .cancel)
    (hrun : (performOn inner op x).run s = .ok ((reply, y), t)) : x.Touched y := by
  cases op with
  | run => cases hcall
  | resume => cases hcall
  | cancel => exact absurd rfl hcancel
  | runChain choice =>
    rw [performOn_runChain_none (Option.map_eq_none_iff.1 hcall)] at hrun
    cases hrun
    rfl
  | _ =>
    cases hrun
    rfl

/-- A driving call that is possible. -/
theorem performOn_allowed {call : Call Handler} (hcall : op.call? s x = some call)
    (hallowed : call.AllowedIn x.state)
    (hrun : (performOn (nested depth) op x).run s = .ok ((reply, y), t)) :
    ∃ result, drivenReply (result, y) = (reply, y) ∧
      call.Drives (host (nested depth)) x s (result, y) t ∧ Settled (result, y) := by
  rw [performOn_call hcall] at hrun
  cases hperform : (call.perform (host (nested depth)) x).run s with
  | error halt =>
    rw [hperform] at hrun
    cases hrun
  | ok driven =>
    obtain ⟨⟨result, z⟩, u⟩ := driven
    obtain ⟨hdrives, hsettled⟩ := (steady_host depth).perform_moves trivial hallowed hperform
    rw [hperform] at hrun
    cases result with
    | ok status =>
      cases hrun
      exact ⟨_, rfl, hdrives, hsettled⟩
    | error error =>
      cases hrun
      exact ⟨_, rfl, hdrives, hsettled⟩

/-- A driving call that is not possible. -/
theorem performOn_refused {call : Call Handler} (hcall : op.call? s x = some call)
    (hallowed : ¬ call.AllowedIn x.state)
    (hrun : (performOn inner op x).run s = .ok ((reply, y), t)) :
    reply = .refused (.execution (.invalidState x.id x.state call.asked)) ∧ y = x ∧ t = s := by
  rw [performOn_call hcall, call.perform_of_not_allowed (host inner) hallowed] at hrun
  cases hrun
  exact ⟨rfl, rfl, rfl⟩

/-! ### Operations one after the other -/

/-- One operation on an exchange, performed at any depth, in whatever state the session has come
    to. -/
def Handling (x y : Exchange Handler) : Prop :=
  ∃ depth op s reply t, (performOn (nested depth) op x).run s = .ok ((reply, y), t)

/-- An exchange that has come to its end stays there. -/
theorem Handling.terminal (h : Handling x y) (hx : x.state.isTerminal = true) :
    y.state = x.state := by
  obtain ⟨depth, op, s, reply, t, hrun⟩ := h
  cases hcall : op.call? s x with
  | some call =>
    have hallowed : ¬ call.AllowedIn x.state := by
      intro hallowed
      cases call <;> rw [show x.state = _ from hallowed] at hx <;> cases hx
    rw [(performOn_refused hcall hallowed hrun).2.1]
  | none =>
    by_cases hcancel : op = .cancel
    · subst hcancel
      obtain ⟨result, hresult, -⟩ := performOn_cancel hrun
      obtain ⟨-, -, hmoves, -⟩ | ⟨-, -, rfl, -⟩ := cancel_moves hresult
      · rw [hmoves.not_terminal] at hx
        cases hx
      · rfl
    · exact (touched_of_other hcall hcancel hrun).state_eq

theorem terminal_of_handlings (h : Relation.ReflTransGen Handling x y)
    (hx : x.state.isTerminal = true) : y.state = x.state := by
  induction h with
  | refl => rfl
  | tail _ hlast ih => exact (hlast.terminal (ih ▸ hx)).trans ih

/-- **The states of an exchange under operations**, whoever performs them and at whatever depth.
    A driving call that is possible takes the exchange along the moves of the state machine, and its
    reply tells where that has ended.  One that is not possible is refused, names the state, and
    changes neither the exchange nor the session, where requests for cancellation are kept.  A
    cancellation fails the exchange, or is refused in the same way.  Nothing else changes the state,
    and once the exchange is completed or faulted it stays so. -/
theorem performOn_follows_states
    (hrun : (performOn (nested depth) op x).run s = .ok ((reply, y), t)) :
    (∀ call, op.call? s x = some call → call.AllowedIn x.state →
      ∃ result, drivenReply (result, y) = (reply, y) ∧
        call.Drives (host (nested depth)) x s (result, y) t ∧ Settled (result, y)) ∧
    (∀ call, op.call? s x = some call → ¬ call.AllowedIn x.state →
      reply = .refused (.execution (.invalidState x.id x.state call.asked)) ∧ y = x ∧ t = s) ∧
    (op = .cancel →
      ((x.state = .created ∨ x.state = .paused) ∧ reply = .nothing ∧ x.state.Moves y.state ∧
          y.state = .faulted ∧ y.paused = false ∧ t = s.trip x.id) ∨
        (¬ (x.state = .created ∨ x.state = .paused) ∧
          reply = .refused (.execution (.invalidState x.id x.state .cancel)) ∧ y = x ∧ t = s)) ∧
    (op.call? s x = none → op ≠ .cancel → y.state = x.state) ∧
    ∀ z, Relation.ReflTransGen Handling y z → y.state.isTerminal = true → z.state = y.state := by
  refine ⟨?_, ?_, ?_, ?_, fun z hz => terminal_of_handlings hz⟩
  · intro call hcall hallowed
    exact performOn_allowed hcall hallowed hrun
  · intro call hcall hallowed
    exact performOn_refused hcall hallowed hrun
  · rintro rfl
    obtain ⟨result, hcancel, hreply⟩ := performOn_cancel hrun
    obtain ⟨hstate, rfl, hmoves, hfaulted, hflag, rfl⟩ | ⟨hstate, rfl, rfl, rfl⟩ :=
      cancel_moves hcancel
    · exact Or.inl ⟨hstate, hreply, hmoves, hfaulted, hflag, rfl⟩
    · exact Or.inr ⟨hstate, hreply, rfl, rfl⟩
  · intro hcall hcancel
    exact (touched_of_other hcall hcancel hrun).state_eq

/-- A handler that tries to run and to cancel its own exchange, and then asks for a pause. -/
def meddler : Link Handler :=
  ⟨{ name := "meddle", phase := "Dispatch" }, .ask (.own .run) fun _ => .ask (.own .cancel) fun _ =>
    .ask (.own .pause) fun _ => .done (.ok .proceed)⟩

/-- A session whose exchanges meet the meddler. -/
def meddled : Session :=
  .create (.fixed (.uniform ["Dispatch"]) [(.inbound, [meddler])]) (.empty {})

/-- An exchange that meets the meddler is paused by it and by nothing else, and cannot be run
    again. -/
theorem performOn_follows_states_of_meddled :
    let x : Exchange Handler := .create 0 "orders" "place" .inbound none none
    ∃ y t, (performOn (nested 1) .run x).run meddled = .ok ((.status .paused, y), t) ∧
      Call.run.Drives (host (nested 1)) x meddled (.ok .paused, y) t ∧
      y.state = .paused ∧ y.paused = true ∧
      ∀ reply z u, (performOn (nested 1) .run y).run t = .ok ((reply, z), u) →
        reply = .refused (.execution (.invalidState 0 .paused .run)) ∧ z = y ∧ u = t := by
  intro x
  obtain ⟨y, t, hrun, hid⟩ : ∃ y t,
      (performOn (nested 1) .run x).run meddled = .ok ((.status .paused, y), t) ∧ y.id = 0 :=
    ⟨_, _, rfl, rfl⟩
  obtain ⟨hpossible, -⟩ := performOn_follows_states hrun
  obtain ⟨result, hreply, hdrives, hsettled⟩ := hpossible .run rfl rfl
  obtain rfl : result = .ok .paused := by
    rcases result with error | ⟨_ | _⟩
    · cases hreply
    · cases hreply
    · rfl
  have hstate : y.state = .paused := hsettled.paused.1 rfl
  refine ⟨y, t, hrun, hdrives, hstate, hsettled.flag.2 hstate, fun reply z u hagain => ?_⟩
  have hrefused := (performOn_follows_states hagain).2.1 .run rfl
  rw [hstate, hid] at hrefused
  exact hrefused (by simp [Call.AllowedIn])

end Session

end ExchangePipeline
