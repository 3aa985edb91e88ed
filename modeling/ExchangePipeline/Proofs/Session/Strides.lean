/-
  ExchangePipeline/Proofs/Session/Strides.lean
  ============================================
  **Calls on an exchange, taken in strides.**

  Whoever drives several exchanges at once may turn from one call to another
  whenever the first is between two requests of a handler, before it invokes a
  handler, or behind it.  A call is cut up there: it begins (`begin`), and goes on by
  strides (`Standing.goOn`) until it is over.  Between them it stands somewhere, and
  where it stands is all that is to be kept of it (`Standing`).

  A call that nobody comes between is the operation that is performed at once
  (`performOn_strides`).  Every stride is confined to the exchange that it is taken on,
  as long as the handlers are inward (`confined_begin`, `confined_goOn`).
-/
import ExchangePipeline.Proofs.Session.Confinement

namespace ExchangePipeline

open Session

instance Call.decidableAllowedIn {β : Type} (call : Call β) (state : ExchangeState) :
    Decidable (call.AllowedIn state) :=
  match call with
  | .run => inferInstanceAs (Decidable (state = .created))
  | .runChain _ => inferInstanceAs (Decidable (state = .created))
  | .resume => inferInstanceAs (Decidable (state = .paused))

/-! ### Strides -/

/-- Where a call on an exchange stands. -/
inductive Standing where
  /-- Before the next handler, or at the end of the chain. -/
  | walking (x : Exchange Handler)
  /-- In the handler of a link.  It was invoked on `x`, has made `y` of it, and has still to do
      what is left. -/
  | handling (x : Exchange Handler) (link : Link Handler) (left : Handler) (y : Exchange Handler)
  | finished (reply : Reply) (x : Exchange Handler)

namespace Standing

def ended (driven : Driven Handler) : Standing :=
  .finished (drivenReply driven).1 driven.2

/-- Looks whether cancellation has been requested, and goes into the next handler. -/
def enter (x : Exchange Handler) : Doing Standing := do
  if (← get).isTripped x.id then
    return .ended (.error (.cancelled x.id), x.fail (.cancelled x.activeFlow))
  match x.remaining with
  | [] => return .ended (.ok .completed, x.complete)
  | link :: _ =>
    modify (record (.invoked x.id link))
    return .handling x link link.body x

/-- Comes out of the handler of a link, which was invoked on `x` and has made `y` of it. -/
def leave (x : Exchange Handler) (link : Link Handler) (y : Exchange Handler) :
    Outcome → Doing Standing
  | .ok response =>
    if response = .pause ∨ y.paused then
      return .ended (.ok .paused, (y.moveTo (x.cursor + 1)).suspend)
    else return .walking (y.moveTo (x.cursor + 1))
  | .error fault => do
    let record := FaultRecord.handler link.placement x.activeFlow fault.text
    if x.activeFlow.isFault then
      return .ended (.error (.unrecoverable y.id link.name fault),
        (y.moveTo (x.cursor + 1)).fail record)
    else
      match ← chainFor y.service y.operation x.activeFlow.faultFlow with
      | .error error =>
        return .ended (.error (.resolution error), (y.moveTo (x.cursor + 1)).fail record)
      | .ok chain => return .walking ((y.moveTo (x.cursor + 1)).divert chain record)

/-- Goes on with a call, where handlers are nested to a depth. -/
def goOn (depth : Nat) : Standing → Doing Standing
  | .walking x => enter x
  | .handling x link (.ask ask next) y => do
    let (reply, z) ← (answer (nested depth) ask).run y
    return .handling x link (next reply) z
  | .handling x link (.done outcome) y => leave x link y outcome
  | .finished reply x => return .finished reply x

/-- Begins a driving call that the exchange can take. -/
def drive (x : Exchange Handler) : Call Handler → Doing Standing
  | .run => do
    match ← chainFor x.service x.operation x.direction with
    | .error error =>
      return .ended (.error (.resolution error), x.fail (.resolution x.direction error.message))
    | .ok chain => return .walking (x.start chain)
  | .runChain chain => return .walking (x.start chain)
  | .resume => return .walking x.unpause

/-- Begins an operation on an exchange.  Driving calls are begun only; all others are over at
    once. -/
def begin (depth : Nat) (op : ExchangeOp) (x : Exchange Handler) : Doing Standing := do
  match op.call? (← get) x with
  | some call =>
    if call.AllowedIn x.state then drive x call
    else return .ended (.error (.invalidState x.id x.state call.asked), x)
  | none =>
    let (reply, y) ← performOn (nested (depth + 1)) op x
    return .finished reply y

/-- One stride. -/
def Stride (depth : Nat) (p q : Standing × Session) : Prop :=
  (p.1.goOn depth).run p.2 = .ok q

/-- Any number of strides, one after the other. -/
def Strides (depth : Nat) : Standing × Session → Standing × Session → Prop :=
  Relation.ReflTransGen (Stride depth)

/-! ### Walks by strides -/

def ofStage : Stage Handler → Standing
  | .walking x => .walking x
  | .ended driven => .ended driven

variable {depth : Nat} {x y : Exchange Handler} {s t : Session} {link : Link Handler}
  {rest : List (Link Handler)}

theorem run_enter_of_tripped (h : s.isTripped x.id = true) :
    (enter x).run s =
      .ok (.ended (.error (.cancelled x.id), x.fail (.cancelled x.activeFlow)), s) := by
  simp only [enter, StateT.run_bind, StateT.run_get, pure_bind, if_pos h]
  rfl

theorem run_enter_of_atEnd (h : s.isTripped x.id = false) (hend : x.remaining = []) :
    (enter x).run s = .ok (.ended (.ok .completed, x.complete), s) := by
  simp only [enter, StateT.run_bind, StateT.run_get, pure_bind, h, Bool.false_eq_true, if_false,
    hend]
  rfl

theorem run_enter_of_next (h : s.isTripped x.id = false) (hnext : x.remaining = link :: rest) :
    (enter x).run s = .ok (.handling x link link.body x, s.record (.invoked x.id link)) := by
  simp only [enter, StateT.run_bind, StateT.run_get, pure_bind, h, Bool.false_eq_true, if_false,
    hnext]
  rfl

/-- The answer to a request of a handler is a stride. -/
theorem stride_of_answered {w w' : Work} (h : w.Answered (nested depth) w') :
    Stride depth (.handling x link w.left w.exchange, w.session)
      (.handling x link w'.left w'.exchange, w'.session) := by
  obtain ⟨answers⟩ := h
  rw [Stride, goOn, StateT.run_bind, answers]
  rfl

/-- A handler is gone through request by request. -/
theorem strides_of_proceeds {w w' : Work} (h : w.Proceeds (nested depth) w') :
    Strides depth (.handling x link w.left w.exchange, w.session)
      (.handling x link w'.left w'.exchange, w'.session) := by
  induction h with
  | refl => exact .refl
  | tail _ hlast ih => exact ih.tail (stride_of_answered hlast)

/-- An invocation is one stride into the handler, and those that the handler takes. -/
theorem strides_of_invoke {outcome : Outcome} (hfree : s.isTripped x.id = false)
    (hnext : x.remaining = link :: rest)
    (hrun : ((host (nested (depth + 1))).invoke link x).run s = .ok ((outcome, y), t)) :
    Strides depth (.walking x, s) (.handling x link (.done outcome) y, t) := by
  have henter : Stride depth (.walking x, s)
      (.handling x link link.body x, s.record (.invoked x.id link)) := run_enter_of_next hfree hnext
  exact .head henter (strides_of_proceeds (proceeds_of_invoke hrun))

/-- **A turn** is made of strides. -/
theorem strides_of_turn {p q : Stage Handler × Session}
    (hturn : (host (nested (depth + 1))).Turn p q) :
    Strides depth (ofStage p.1, p.2) (ofStage q.1, q.2) := by
  cases hturn with
  | cancels requested => exact .single (run_enter_of_tripped requested)
  | completes unrequested atEnd => exact .single (run_enter_of_atEnd unrequested atEnd)
  | pauses unrequested next returns asks =>
    refine .tail (strides_of_invoke unrequested next returns) ?_
    rw [Stride, goOn, leave, if_pos asks]
    rfl
  | proceeds unrequested next returns goes =>
    refine .tail (strides_of_invoke unrequested next returns) ?_
    rw [Stride, goOn, leave, if_neg goes]
    rfl
  | breaks unrequested next faults final =>
    refine .tail (strides_of_invoke unrequested next faults) ?_
    simp only [Stride, goOn, leave, final, if_true]
    rfl
  | strands unrequested next faults ordinary asked =>
    refine .tail (strides_of_invoke unrequested next faults) ?_
    simp only [Stride, goOn, leave, ordinary, Bool.false_eq_true, if_false]
    exact run_bind_ok.2 ⟨_, _, asked, rfl⟩
  | diverts unrequested next faults ordinary asked =>
    refine .tail (strides_of_invoke unrequested next faults) ?_
    simp only [Stride, goOn, leave, ordinary, Bool.false_eq_true, if_false]
    exact run_bind_ok.2 ⟨_, _, asked, rfl⟩

theorem strides_of_turns {p q : Stage Handler × Session}
    (hturns : (host (nested (depth + 1))).Turns p q) :
    Strides depth (ofStage p.1, p.2) (ofStage q.1, q.2) := by
  induction hturns with
  | refl => exact .refl
  | tail _ hturn ih => exact ih.trans (strides_of_turn hturn)

theorem run_drive {call : Call Handler} {first : Stage Handler}
    (hbegins : call.Begins (host (nested (depth + 1))) (x, s) (first, t)) :
    (drive x call).run s = .ok (ofStage first, t) := by
  cases hbegins with
  | run _ asked => exact run_bind_ok.2 ⟨_, _, asked, rfl⟩
  | unresolved _ asked => exact run_bind_ok.2 ⟨_, _, asked, rfl⟩
  | runChain => rfl
  | resume => rfl

theorem run_begin_of_call {op : ExchangeOp} {call : Call Handler} (h : op.call? s x = some call) :
    (begin depth op x).run s =
      if call.AllowedIn x.state then (drive x call).run s
      else .ok (.ended (.error (.invalidState x.id x.state call.asked), x), s) := by
  simp only [begin, StateT.run_bind, StateT.run_get, pure_bind, h]
  split
  · rfl
  · rfl

theorem run_begin_of_other {op : ExchangeOp} (h : op.call? s x = none) :
    (begin depth op x).run s =
      ((performOn (nested (depth + 1)) op x).run s).map fun result =>
        (.finished result.1.1 result.1.2, result.2) := by
  simp only [begin, StateT.run_bind, StateT.run_get, pure_bind, h]
  cases (performOn (nested (depth + 1)) op x).run s <;> rfl

/-- **A call that nobody comes between** is the operation performed at once. -/
theorem performOn_strides {op : ExchangeOp} {reply : Reply}
    (hrun : (performOn (nested (depth + 1)) op x).run s = .ok ((reply, y), t)) :
    ∃ first u, (begin depth op x).run s = .ok (first, u) ∧
      Strides depth (first, u) (.finished reply y, t) := by
  cases hcall : op.call? s x with
  | none =>
    refine ⟨.finished reply y, t, ?_, .refl⟩
    rw [run_begin_of_other hcall, hrun]
    rfl
  | some call =>
    rw [run_begin_of_call hcall]
    by_cases hallowed : call.AllowedIn x.state
    · rw [if_pos hallowed]
      rw [performOn_call hcall] at hrun
      cases hperform : (call.perform (host (nested (depth + 1))) x).run s with
      | error halt =>
        rw [hperform] at hrun
        cases hrun
      | ok result =>
        obtain ⟨driven, v⟩ := result
        obtain ⟨first, u, -, hbegins, hturns⟩ :=
          (steady_host (depth + 1)).perform_turns trivial hallowed hperform
        have hstrides := strides_of_turns hturns
        have hended : ofStage (.ended driven) = .finished reply y ∧ v = t := by
          rw [hperform] at hrun
          obtain ⟨error | status, z⟩ := driven <;> cases hrun <;> exact ⟨rfl, rfl⟩
        rw [hended.1, hended.2] at hstrides
        exact ⟨ofStage first, u, run_drive hbegins, hstrides⟩
    · rw [if_neg hallowed]
      obtain ⟨rfl, rfl, rfl⟩ := performOn_refused hcall hallowed hrun
      exact ⟨_, _, rfl, .refl⟩

/-! ### Strides are confined -/

/-- What is known of a call on the exchange of a number, wherever it stands. -/
def Fits (id : Nat) : Standing → Prop
  | .walking x => x.id = id ∧ x.state = .running ∧ InwardExchange x
  | .handling _ _ left y => y.id = id ∧ y.state = .running ∧ InwardExchange y ∧ Inward left
  | .finished _ x => x.id = id ∧ InwardExchange x

variable {id : Nat}

theorem fits_ended {driven : Driven Handler} (h : Continues x driven.2) :
    (ended driven).Fits x.id :=
  ⟨h.id_eq, h.inward⟩

theorem fits_walking_of_chain {chain : Chain Handler} (hy : y.id = id) (hstate : y.state = .running)
    (hchain : y.chain = some chain) (hlinks : InwardLinks chain.links) :
    (walking y).Fits id := by
  refine ⟨hy, hstate, fun other hother => ?_⟩
  rw [hchain] at hother
  cases hother
  exact hlinks

theorem confined_enter (hstate : x.state = .running) (hx : InwardExchange x) :
    Confined x.id (Fits x.id) (enter x) := by
  refine .get_bind (fun s s' h => by rw [h.tripped]) fun s _ => ?_
  refine .ite (.pure (fits_ended (hx.continues rfl rfl))) ?_
  cases hnext : x.remaining with
  | nil => exact .pure (fits_ended (hx.continues rfl rfl))
  | cons link rest =>
    have hlink : Inward link.body := hx.remaining link (by rw [hnext]; exact List.mem_cons_self)
    exact .bind (.modify { invoked := [link] } fun s => affected_invoked link x.id s) fun _ _ =>
      .pure ⟨rfl, hstate, hx, hlink⟩

theorem confined_leave (hstate : y.state = .running) (hy : InwardExchange y) (outcome : Outcome) :
    Confined y.id (Fits y.id) (leave x link y outcome) := by
  cases outcome with
  | ok response =>
    exact .ite (.pure (fits_ended (hy.continues rfl rfl)))
      (.pure ⟨rfl, hstate, (hy.continues rfl rfl : Continues y (y.moveTo _)).inward⟩)
  | error fault =>
    refine .ite (.pure (fits_ended (hy.continues rfl rfl))) ?_
    refine .bind (confined_chainFor y.id y.service y.operation x.activeFlow.faultFlow) ?_
    rintro (error | chain) hchain
    · exact .pure (fits_ended (hy.continues rfl rfl))
    · exact .pure (fits_walking_of_chain rfl rfl rfl (hchain chain rfl).2)

/-- **A stride is confined** to its exchange. -/
theorem confined_goOn (depth : Nat) {standing : Standing} (h : standing.Fits id) :
    Confined id (Fits id) (standing.goOn depth) := by
  cases standing with
  | walking x =>
    obtain ⟨rfl, hstate, hx⟩ := h
    exact confined_enter hstate hx
  | handling x link left y =>
    obtain ⟨rfl, hstate, hy, hleft⟩ := h
    cases hleft with
    | done outcome => exact confined_leave hstate hy outcome
    | @ask op next goesOn =>
      refine .bind (confined_performOn_of_running hstate hy op) fun result hz => ?_
      exact .pure ⟨hz.id_eq, hz.state_eq.trans hstate, (hy.touched hz).inward, goesOn result.1⟩
  | finished reply x => exact .pure h

theorem confined_drive (hx : InwardExchange x) {call : Call Handler} (hcall : InwardCall call) :
    Confined x.id (Fits x.id) (drive x call) := by
  cases call with
  | run =>
    refine .bind (confined_chainFor x.id _ _ _) ?_
    rintro (error | chain) hchain
    · exact .pure (fits_ended (hx.continues rfl rfl))
    · exact .pure (fits_walking_of_chain rfl rfl rfl (hchain chain rfl).2)
  | runChain chain => exact .pure (fits_walking_of_chain rfl rfl rfl hcall)
  | resume => exact .pure ⟨rfl, rfl, (hx.continues rfl rfl : Continues x x.unpause).inward⟩

theorem inwardCall_of_call? (hs : s.Serving) (hx : InwardExchange x) {op : ExchangeOp}
    {call : Call Handler} (h : op.call? s x = some call) : InwardCall call := by
  cases op with
  | runChain choice =>
    obtain ⟨chain, hchain, rfl⟩ := Option.map_eq_some_iff.1 h
    exact inward_chosenChain? hs hx hchain
  | run => cases h; trivial
  | resume => cases h; trivial
  | _ => cases h

/-- **The beginning of a call is confined** to its exchange. -/
theorem confined_begin (depth : Nat) (op : ExchangeOp) (hx : InwardExchange x) :
    Confined x.id (Fits x.id) (begin depth op x) := by
  have hsame : ∀ {s s' : Session}, s.Alike x.id s' → op.call? s' x = op.call? s x := by
    intro s s' h
    cases op with
    | runChain choice => rw [ExchangeOp.call?, chosenChain?_alike h, ExchangeOp.call?]
    | _ => rfl
  refine .get_bind (fun s s' h => by rw [hsame h]) fun s hs => ?_
  cases hcall : op.call? s x with
  | some call =>
    exact .ite (confined_drive hx (inwardCall_of_call? hs hx hcall))
      (.pure (fits_ended (hx.continues rfl rfl)))
  | none =>
    exact .bind (confined_performOn hx op) fun result hy => .pure ⟨hy.id_eq, hy.inward⟩

end Standing

end ExchangePipeline
