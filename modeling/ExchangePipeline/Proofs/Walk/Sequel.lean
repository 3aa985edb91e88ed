/-
  ExchangePipeline/Proofs/Walk/Sequel.lean
  ========================================
  **What a walk does behind a handler.**

  While an exchange is running nobody can drive it (`Exchange.Undriven`), whichever host
  they try it through and whichever chain they try it along.  So where the exchange stands
  when a handler has returned is where it stood before (`Exchange.StandsAs`), and what the
  walk does next can be told from there and from four things that are known only then
  (`Exchange.sequel`): what the handler has returned, whether a pause is asked for, whether
  cancellation has been requested, and, after a fault, what chain the host answers with.

  That this is what a walk does is `Host.Steady.sequel_of_turn`.
-/
import ExchangePipeline.Proofs.Walk.Turns

namespace ExchangePipeline

variable {σ β : Type}

/-! ### Standing still -/

namespace Exchange

/-- `y` is the exchange that `x` is, and stands where `x` stands. -/
structure StandsAs (x y : Exchange β) : Prop where
  id : y.id = x.id
  state : y.state = x.state
  cursor : y.cursor = x.cursor
  chain : y.chain = x.chain
  activeFlow : y.activeFlow = x.activeFlow
  direction : y.direction = x.direction
  service : y.service = x.service
  operation : y.operation = x.operation

/-- No call can drive the exchange, and none can cancel it: all are refused as impossible while it
    is running, and do nothing. -/
structure Undriven (x : Exchange β) : Prop where
  perform : ∀ {σ : Type} (host : Host σ β) (call : Call β),
    call.perform host x = pure (.error (.invalidState x.id .running call.asked), x)
  cancel : ∀ {σ : Type} (host : Host σ β),
    host.cancel x = pure (.error (.invalidState x.id .running .cancel), x)

variable {x y : Exchange β}

theorem Touched.standsAs (h : x.Touched y) : x.StandsAs y := by
  constructor <;> rw [h]

theorem undriven_of_running (hx : x.state = .running) : x.Undriven := by
  constructor
  · intro σ host call
    have hrefused : ¬ call.AllowedIn x.state := by
      rw [hx]
      cases call <;> simp [Call.AllowedIn]
    rw [call.perform_of_not_allowed host hrefused, hx]
  · intro σ host
    rw [cancel_of_running hx, hx]

theorem StandsAs.moveTo (h : x.StandsAs y) (cursor : Nat) :
    (x.moveTo cursor).StandsAs (y.moveTo cursor) :=
  { h with cursor := rfl }

/-- Diverted, two exchanges that stood in one place stand in one place again. -/
theorem StandsAs.divert (h : x.StandsAs y) (cursor : Nat) (chain : Chain β) (record : FaultRecord) :
    (x.start chain).StandsAs ((y.moveTo cursor).divert chain record) :=
  ⟨h.id, rfl, rfl, rfl, rfl, h.direction, h.service, h.operation⟩

theorem StandsAs.remaining (h : x.StandsAs y) : y.remaining = x.remaining := by
  rw [Exchange.remaining, Exchange.remaining, h.chain, h.cursor]

end Exchange

/-! ### What comes next -/

/-- What a walk does next. -/
inductive Sequel (β : Type) where
  /-- It invokes the handler at a position of the bound chain, in a flow. -/
  | invokes (chain : Option (Chain β)) (position : Nat) (flow : Flow) (link : Link β)
  /-- The call is over, with this for an answer. -/
  | ends (result : Except ExecutionError Status)

/-- What a walk does where an exchange stands, if cancellation has been requested or not. -/
def Sequel.along (cancelled : Bool) (x : Exchange β) : Sequel β :=
  if cancelled then .ends (.error (.cancelled x.id))
  else
    match x.remaining with
    | [] => .ends (.ok .completed)
    | link :: _ => .invokes x.chain x.cursor x.activeFlow link

def Stage.sequel (cancelled : Bool) : Stage β → Sequel β
  | .walking x => .along cancelled x
  | .ended driven => .ends driven.1

/-- What a walk does behind the handler of a link that was invoked on `x`: `paused` and `cancelled`
    tell how the two flags stand afterwards, and `lookup` is the answer of the host if it is asked
    for the fault chain. -/
def Exchange.sequel (x : Exchange β) (link : Link β) (outcome : Outcome) (paused cancelled : Bool)
    (lookup : Except ConfigError (Chain β)) : Sequel β :=
  match outcome with
  | .ok response =>
    if response = .pause ∨ paused then .ends (.ok .paused)
    else .along cancelled (x.moveTo (x.cursor + 1))
  | .error fault =>
    if x.activeFlow.isFault then .ends (.error (.unrecoverable x.id link.name fault))
    else
      match lookup with
      | .error error => .ends (.error (.resolution error))
      | .ok chain => .along cancelled (x.start chain)

variable {Good : σ → Prop} {host : Host σ β} {x y : Exchange β} {s t u : σ} {stage : Stage β}
  {link : Link β} {rest : List (Link β)} {outcome : Outcome}

theorem Exchange.StandsAs.along (h : x.StandsAs y) (cancelled : Bool) :
    Sequel.along cancelled y = .along cancelled x := by
  simp only [Sequel.along, h.remaining, h.id, h.chain, h.cursor, h.activeFlow]

/-- What is told of the next step is what the turn from `p` to `q` does. -/
def Host.Fulfils (host : Host σ β) (p q : Stage β × σ) : Sequel β → Prop
  | .ends result => ∃ y, q = (.ended (result, y), p.2)
  | .invokes chain position flow link => ∃ x outcome y t, p.1 = .walking x ∧ x.chain = chain ∧
      x.cursor = position ∧ x.activeFlow = flow ∧
      (host.invoke link x).run p.2 = .ok ((outcome, y), t)

/-- **A turn does what comes next**: it ends the call, or it invokes the handler. -/
theorem Host.Turn.fulfils {p q : Stage β × σ} (hturn : host.Turn p q) :
    host.Fulfils p q (p.1.sequel (host.cancelRequested p.1.exchange.id p.2)) := by
  cases hturn with
  | cancels requested =>
    simp only [Stage.sequel, Stage.exchange, Sequel.along, requested, if_true]
    exact ⟨_, rfl⟩
  | completes unrequested atEnd =>
    simp only [Stage.sequel, Stage.exchange, Sequel.along, unrequested, Bool.false_eq_true,
      if_false, atEnd]
    exact ⟨_, rfl⟩
  | pauses unrequested next returns | proceeds unrequested next returns
  | breaks unrequested next returns | strands unrequested next returns
  | diverts unrequested next returns =>
    simp only [Stage.sequel, Stage.exchange, Sequel.along, unrequested, Bool.false_eq_true,
      if_false, next]
    exact ⟨_, _, _, _, rfl, rfl, rfl, rfl, returns⟩

/-- The handler that a turn has invoked has returned what it returns. -/
theorem invoked_of_turn {link' : Link β} {rest' : List (Link β)} {outcome' : Outcome}
    {y' : Exchange β} {t' : σ} (next : x.remaining = link :: rest)
    (invoked : (host.invoke link x).run s = .ok ((outcome, y), t))
    (next' : x.remaining = link' :: rest')
    (invoked' : (host.invoke link' x).run s = .ok ((outcome', y'), t')) :
    link' = link ∧ outcome' = outcome ∧ y' = y ∧ t' = t := by
  obtain ⟨rfl, -⟩ := List.cons.inj (next'.symm.trans next)
  obtain ⟨hresult, rfl⟩ := Prod.mk.inj (Except.ok.inj (invoked'.symm.trans invoked))
  obtain ⟨rfl, rfl⟩ := Prod.mk.inj hresult
  exact ⟨rfl, rfl, rfl, rfl⟩

/-- **Behind a handler** a walk does what can be told from where the exchange stood before it, from
    what it returned, from the two flags, and from the answer to the question for a fault chain. -/
theorem Host.Steady.sequel_of_turn (h : host.Steady Good) (hs : Good s) (hx : x.state = .running)
    (unrequested : host.cancelRequested x.id s = false) (next : x.remaining = link :: rest)
    (invoked : (host.invoke link x).run s = .ok ((outcome, y), t))
    (hturn : host.Turn (.walking x, s) (stage, u)) {lookup : Except ConfigError (Chain β)}
    (asked : ∀ fault, outcome = .error fault → x.activeFlow.isFault = false →
      (host.chainFor x.service x.operation x.activeFlow.faultFlow).run t = .ok (lookup, u)) :
    stage.sequel (host.cancelRequested x.id u) =
      x.sequel link outcome y.paused (host.cancelRequested x.id u) lookup := by
  have hstands : x.StandsAs y := (h.invoke hs hx invoked).2.standsAs
  cases hturn with
  | cancels requested =>
    rw [unrequested] at requested
    cases requested
  | completes _ atEnd =>
    rw [atEnd] at next
    cases next
  | pauses _ next' returns asks =>
    obtain ⟨rfl, rfl, rfl, rfl⟩ := invoked_of_turn next invoked next' returns
    rw [Exchange.sequel, if_pos asks, Stage.sequel]
  | proceeds _ next' returns goes =>
    obtain ⟨rfl, rfl, rfl, rfl⟩ := invoked_of_turn next invoked next' returns
    rw [Exchange.sequel, if_neg goes, Stage.sequel]
    exact (hstands.moveTo _).along _
  | breaks _ next' returns final =>
    obtain ⟨rfl, rfl, rfl, rfl⟩ := invoked_of_turn next invoked next' returns
    simp only [Exchange.sequel, final, if_true, Stage.sequel, hstands.id]
  | strands _ next' returns ordinary answer =>
    obtain ⟨rfl, rfl, rfl, rfl⟩ := invoked_of_turn next invoked next' returns
    rw [hstands.service, hstands.operation, asked _ rfl ordinary] at answer
    cases answer
    simp only [Exchange.sequel, ordinary, Bool.false_eq_true, if_false, Stage.sequel]
  | diverts _ next' returns ordinary answer =>
    obtain ⟨rfl, rfl, rfl, rfl⟩ := invoked_of_turn next invoked next' returns
    rw [hstands.service, hstands.operation, asked _ rfl ordinary] at answer
    cases answer
    simp only [Exchange.sequel, ordinary, Bool.false_eq_true, if_false, Stage.sequel]
    exact (hstands.divert _ _ _).along _

end ExchangePipeline
