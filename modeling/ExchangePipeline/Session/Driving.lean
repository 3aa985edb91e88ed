/-
  ExchangePipeline/Session/Driving.lean
  =====================================
  **Driving exchanges of a session**: operations on one exchange.

  What happens when a handler is invoked, or outside code is run, is left open
  here: it is given as the `Inner` of the operations.
-/
import ExchangePipeline.Session

namespace ExchangePipeline

/-- How handlers and other outside code are run inside an operation. -/
structure Inner where
  invoke : Link Handler → Exchange Handler → Doing (Outcome × Exchange Handler)
  carryOut : Procedure → Doing Verdict

namespace Session

/-- A session as the host of walks. -/
def host (inner : Inner) : Host Session Handler where
  chainFor := chainFor
  invoke := inner.invoke
  cancelRequested := isTripped
  requestCancel := trip

/-- The reply of a driving call. -/
def drivenReply : Driven Handler → Reply × Exchange Handler
  | (.ok status, x) => (.status status, x)
  | (.error error, x) => (.refused (.execution error), x)

/-- The chain of a choice, for an exchange. -/
def chosenChain? (s : Session) (x : Exchange Handler) : ChainChoice → Option (Chain Handler)
  | .bound => x.chain
  | .held name => Dict.find? name s.heldChains

/-- Performs an operation on an exchange. -/
def performOn (inner : Inner) (op : ExchangeOp) (x : Exchange Handler) :
    Doing (Reply × Exchange Handler) := do
  match op with
  | .view => return (.view ((← get).viewOf x), x)
  | .property key => return (.value (x.property? key), x)
  | .setProperty key value =>
    let x := x.setProperty key value
    return (.count x.properties.length, x)
  | .removeProperty key => return (.value (x.property? key), x.removeProperty key)
  | .setPayload content => return (.done, x.setPayload content)
  | .takePayload => return (.payload x.payload, x.takePayload)
  | .pause => return (.done, x.requestPause)
  | .trip =>
    modify (trip x.id)
    return (.done, x)
  | .run => return drivenReply (← (host inner).run x)
  | .resume => return drivenReply (← (host inner).resume x)
  | .cancel =>
    match ← (host inner).cancel x with
    | (.ok (), x) => return (.nothing, x)
    | (.error error, x) => return (.refused (.execution error), x)
  | .runChain choice =>
    match (← get).chosenChain? x choice with
    | none => return (.refused .noChain, x)
    | some chain => return drivenReply (← (host inner).runChain chain x)

/-- Takes the exchange of a name out, and puts it back when the operation is over. -/
def withExchange (name : String)
    (operation : Exchange Handler → Doing (Reply × Exchange Handler)) : Doing Reply := do
  let s ← get
  match Dict.find? name s.exchanges with
  | none => return .refused .noExchange
  | some x =>
    set { s with exchanges := Dict.erase name s.exchanges }
    let (reply, x) ← operation x
    modify fun s => { s with exchanges := Dict.insert name x s.exchanges }
    return reply

/-- Performs an operation on the exchange of a name.  A chain that is not held is missed first. -/
def performOnNamed (inner : Inner) (name : String) (op : ExchangeOp) : Doing Reply := do
  match op with
  | .runChain (.held chainName) =>
    if (Dict.find? chainName (← get).heldChains).isNone then return .refused .noChain
    else withExchange name (performOn inner op)
  | op => withExchange name (performOn inner op)

end Session

end ExchangePipeline
