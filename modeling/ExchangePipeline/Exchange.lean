/-
  ExchangePipeline/Exchange.lean
  ==============================
  **Exchanges**: one message on its way through a chain.

  An exchange knows whom it is addressed to, carries a payload and properties,
  and records where it stands: its state, the chain it is bound to and the
  position of the next handler there.  The transitions of this module are those
  of the state machine

      created → running → paused | completed | faulted,    paused → running,

  and each writes exactly the fields it names.  Whether cancellation has been
  requested is not kept here but beside the exchanges, since others may request
  it while an exchange is under way.
-/
import ExchangePipeline.Chain
import ExchangePipeline.Fault

namespace ExchangePipeline

/-- Where an exchange stands in its life. -/
inductive ExchangeState where
  | created
  | running
  | paused
  | completed
  | faulted
deriving DecidableEq, Repr

namespace ExchangeState

/-- The name of a state. -/
def name : ExchangeState → String
  | .created => "Created"
  | .running => "Running"
  | .paused => "Paused"
  | .completed => "Completed"
  | .faulted => "Faulted"

/-- Whether no further step is possible. -/
def isTerminal : ExchangeState → Bool
  | .completed | .faulted => true
  | _ => false

end ExchangeState

/-- The transport that brought a message or will carry it. -/
structure TransportBinding where
  transport : String
  replyTo : Option String
deriving DecidableEq, Repr

/-- One exchange; `β` is what the handlers of its chain are made of. -/
structure Exchange (β : Type) where
  id : Nat
  service : String
  operation : String
  /-- The flow that the exchange starts with. -/
  direction : Flow
  payload : Option (List UInt8)
  properties : Dict Value
  transport : Option TransportBinding
  state : ExchangeState
  /-- A pause has been asked for, or the exchange is paused. -/
  paused : Bool
  /-- The position of the next handler. -/
  cursor : Nat
  /-- The flow under way; it differs from the direction after a fault. -/
  activeFlow : Flow
  chain : Option (Chain β)

/-- The property under which a fault is recorded. -/
def faultProperty : String := "phaseflow.fault"

/-- The record of what stopped an exchange or diverted it. -/
inductive FaultRecord where
  /-- A handler faulted in this flow. -/
  | handler (placement : Placement) (flow : Flow) (message : String)
  /-- The first chain, of this flow, could not be had. -/
  | resolution (flow : Flow) (message : String)
  /-- The exchange was cancelled in this flow. -/
  | cancelled (flow : Flow)
deriving DecidableEq

/-- The record as a property value: a map of texts. -/
def FaultRecord.toValue : FaultRecord → Value
  | .handler placement flow message =>
    .map (Dict.ofList [
      ("kind", .string "handler"), ("flow", .string flow.label), ("message", .string message),
      ("handler", .string placement.name), ("phase", .string placement.phase)])
  | .resolution flow message =>
    .map (Dict.ofList [
      ("kind", .string "resolution"), ("flow", .string flow.label), ("message", .string message)])
  | .cancelled flow =>
    .map (Dict.ofList [
      ("kind", .string "cancelled"), ("flow", .string flow.label),
      ("message", .string "exchange cancelled")])

namespace Exchange

variable {β : Type}

/-- A new exchange. -/
def create (id : Nat) (service operation : String) (direction : Flow)
    (payload : Option (List UInt8)) (transport : Option TransportBinding) : Exchange β where
  id := id
  service := service
  operation := operation
  direction := direction
  payload := payload
  properties := []
  transport := transport
  state := .created
  paused := false
  cursor := 0
  activeFlow := direction
  chain := none

/-! ### What anyone may read and write -/

/-- A property. -/
def property? (x : Exchange β) (key : String) : Option Value :=
  Dict.find? key x.properties

/-- Writes a property. -/
def setProperty (x : Exchange β) (key : String) (value : Value) : Exchange β :=
  { x with properties := Dict.insert key value x.properties }

/-- Removes a property. -/
def removeProperty (x : Exchange β) (key : String) : Exchange β :=
  { x with properties := Dict.erase key x.properties }

/-- The recorded fault. -/
def fault? (x : Exchange β) : Option Value :=
  x.property? faultProperty

/-- Puts a payload in. -/
def setPayload (x : Exchange β) (content : List UInt8) : Exchange β :=
  { x with payload := some content }

/-- Takes the payload out. -/
def takePayload (x : Exchange β) : Exchange β :=
  { x with payload := none }

/-- Asks for a pause behind the current handler. -/
def requestPause (x : Exchange β) : Exchange β :=
  { x with paused := true }

/-- The handler at the cursor. -/
def current? (x : Exchange β) : Option (Link β) :=
  x.chain.bind fun chain => chain.get? x.cursor

/-- The handlers from the cursor on. -/
def remaining (x : Exchange β) : List (Link β) :=
  match x.chain with
  | some chain => chain.links.drop x.cursor
  | none => []

/-! ### Transitions -/

/-- Binds a chain and starts at its first handler. -/
def start (x : Exchange β) (chain : Chain β) : Exchange β :=
  { x with
    activeFlow := chain.flow
    chain := some chain
    cursor := 0
    paused := false
    state := .running }

/-- Goes on from a pause. -/
def unpause (x : Exchange β) : Exchange β :=
  { x with paused := false, state := .running }

/-- Moves the cursor. -/
def moveTo (x : Exchange β) (cursor : Nat) : Exchange β :=
  { x with cursor := cursor }

/-- Pauses. -/
def suspend (x : Exchange β) : Exchange β :=
  { x with paused := true, state := .paused }

/-- Ends at the end of the chain. -/
def complete (x : Exchange β) : Exchange β :=
  { x with paused := false, state := .completed }

/-- Ends with a fault. -/
def fail (x : Exchange β) (record : FaultRecord) : Exchange β :=
  { x.setProperty faultProperty record.toValue with paused := false, state := .faulted }

/-- Records a fault and starts on the fault chain. -/
def divert (x : Exchange β) (chain : Chain β) (record : FaultRecord) : Exchange β :=
  (x.setProperty faultProperty record.toValue).start chain

end Exchange

end ExchangePipeline
