/-
  ExchangePipeline/Walk.lean
  ==========================
  **Walking an exchange along its chain.**

  A walk invokes the handlers of the bound chain one after the other, from the
  cursor on.  Before each handler, and before it ends, it looks whether
  cancellation has been requested.  A handler may ask for a pause; the exchange
  then rests at the next handler.  A fault in a flow that is no fault flow
  diverts the exchange to the fault chain of its service and operation; a fault
  in a fault flow is final.

  Where chains come from, what a handler does and who has requested cancellation
  is the host's business.  The host keeps a state of type `σ`, which handlers may
  change while an exchange is under way.
-/
import ExchangePipeline.ExecutionError

namespace ExchangePipeline

/-- Why a computation gives no answer at all. -/
inductive Halt where
  /-- Invocations are nested deeper, or a walk is diverted more often, than allowed for. -/
  | tooDeep
  /-- A module's setup waits for itself. -/
  | blocked
deriving DecidableEq, Repr

/-- A computation on a state. -/
abbrev Act (σ : Type) := StateT σ (Except Halt)

/-- What a walk needs from its surroundings. -/
structure Host (σ β : Type) where
  /-- The chain of a service, an operation and a flow. -/
  chainFor : String → String → Flow → Act σ (Except ConfigError (Chain β))
  /-- Runs a handler on an exchange. -/
  invoke : Link β → Exchange β → Act σ (Outcome × Exchange β)
  /-- Whether cancellation of the exchange of a number has been requested. -/
  cancelRequested : Nat → σ → Bool
  /-- Requests cancellation of the exchange of a number. -/
  requestCancel : Nat → σ → σ

/-- What a driving call comes to, and the exchange afterwards. -/
abbrev Driven (β : Type) := Except ExecutionError Status × Exchange β

namespace Host

variable {σ β : Type}

/-- What a fault of a handler, in the flow it was invoked in, comes to. -/
abbrev OnFault (σ β : Type) := Link β → Flow → Fault → Exchange β → Act σ (Driven β)

/-- Walks along `rest`, the handlers still to be invoked. -/
def walkAlong (host : Host σ β) (onFault : OnFault σ β) :
    List (Link β) → Exchange β → Act σ (Driven β)
  | rest, x => do
    if host.cancelRequested x.id (← get) then
      return (.error (.cancelled x.id), x.fail (.cancelled x.activeFlow))
    match rest with
    | [] => return (.ok .completed, x.complete)
    | link :: rest =>
      let (outcome, y) ← host.invoke link x
      let y := y.moveTo (x.cursor + 1)
      match outcome with
      | .ok response =>
        if response = .pause ∨ y.paused then return (.ok .paused, y.suspend)
        else walkAlong host onFault rest y
      | .error fault => onFault link x.activeFlow fault y

/-- What a fault comes to, with so many diversions allowed for.  In the fault flow it ends the
    exchange; elsewhere it diverts the exchange to its fault chain, if that can be had. -/
def faultWithin (host : Host σ β) : Nat → OnFault σ β
  | 0 => fun _ _ _ _ => throw .tooDeep
  | diversions + 1 => fun link flow fault x => do
    let record := FaultRecord.handler link.placement flow fault.text
    if flow.isFault then
      return (.error (.unrecoverable x.id link.name fault), x.fail record)
    else
      match ← host.chainFor x.service x.operation flow.faultFlow with
      | .error error => return (.error (.resolution error), x.fail record)
      | .ok chain => host.walkAlong (host.faultWithin diversions) chain.links (x.divert chain record)

/-- The diversions allowed for in a walk.  One is enough if the chains that the host answers with
    are of the flow that they are asked for; a host that answers with others may divert a walk
    without end. -/
def diversions : Nat := UInt32.size

/-- Walks an exchange from its cursor on. -/
def walk (host : Host σ β) (x : Exchange β) : Act σ (Driven β) :=
  host.walkAlong (host.faultWithin diversions) x.remaining x

/-- Runs a new exchange along a given chain. -/
def runChain (host : Host σ β) (chain : Chain β) (x : Exchange β) : Act σ (Driven β) :=
  if x.state = .created then host.walk (x.start chain)
  else return (.error (.invalidState x.id x.state .run), x)

/-- Runs a new exchange along the chain of its direction. -/
def run (host : Host σ β) (x : Exchange β) : Act σ (Driven β) := do
  if x.state = .created then
    match ← host.chainFor x.service x.operation x.direction with
    | .error error =>
      return (.error (.resolution error), x.fail (.resolution x.direction error.message))
    | .ok chain => host.runChain chain x
  else return (.error (.invalidState x.id x.state .run), x)

/-- Goes on with a paused exchange. -/
def resume (host : Host σ β) (x : Exchange β) : Act σ (Driven β) :=
  if x.state = .paused then host.walk x.unpause
  else return (.error (.invalidState x.id x.state .resume), x)

/-- Cancels an exchange that is not under way. -/
def cancel (host : Host σ β) (x : Exchange β) :
    Act σ (Except ExecutionError Unit × Exchange β) := do
  if x.state = .created ∨ x.state = .paused then
    modify (host.requestCancel x.id)
    return (.ok (), x.fail (.cancelled x.activeFlow))
  else return (.error (.invalidState x.id x.state .cancel), x)

end Host

end ExchangePipeline
