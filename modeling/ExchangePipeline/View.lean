/-
  ExchangePipeline/View.lean
  ==========================
  **What the outside sees** of chains, exchanges, modules and the deployment.

  A view holds names and values, but no handlers.
-/
import ExchangePipeline.Exchange

namespace ExchangePipeline

/-- A chain with the names of its handlers. -/
structure ChainView where
  flow : Flow
  phases : List (String × List String)
deriving DecidableEq, Repr

/-- The names of all handlers, in order. -/
def ChainView.handlerNames (view : ChainView) : List String :=
  view.phases.flatMap (·.2)

/-- The names in a chain. -/
def Chain.view {β : Type} (chain : Chain β) : ChainView where
  flow := chain.flow
  phases := chain.phases.map fun phase => (phase.name, phase.handlerNames)

/-- What the outside sees of an exchange. -/
structure ExchangeView where
  service : String
  operation : String
  direction : Flow
  payload : Option (List UInt8)
  transport : Option TransportBinding
  properties : Dict Value
  state : ExchangeState
  cursor : Nat
  activeFlow : Flow
  paused : Bool
  cancelRequested : Bool
  /-- The flow of the bound chain and the names of its handlers. -/
  chain : Option (Flow × List String)
  /-- The name of the handler at the cursor. -/
  current : Option String

/-- The recorded fault. -/
def ExchangeView.fault? (view : ExchangeView) : Option Value :=
  Dict.find? faultProperty view.properties

/-- What the outside sees of an exchange. -/
def Exchange.view {β : Type} (x : Exchange β) (cancelRequested : Bool) : ExchangeView where
  service := x.service
  operation := x.operation
  direction := x.direction
  payload := x.payload
  transport := x.transport
  properties := x.properties
  state := x.state
  cursor := x.cursor
  activeFlow := x.activeFlow
  paused := x.paused
  cancelRequested := cancelRequested
  chain := x.chain.map fun chain => (chain.flow, chain.handlerNames)
  current := x.current?.map Link.name

/-- What is known of a module. -/
structure ModuleView where
  known : Bool
  initialized : Bool
  /-- The names of the handlers that it contributes. -/
  contributions : Flow → List String

/-- What an observer sees after a step: the exchange that the step was about, if there still is
    one, and two numbers of the deployment. -/
structure Glance where
  exchange : Option ExchangeView
  generation : UInt64
  cachedChains : Nat

end ExchangePipeline
