/-
  ExchangePipeline/Request.lean
  =============================
  **Requests**: everything that can be asked of a session.

  The same requests serve the outside and the programs inside: a handler, the
  setup of a module or the start of a transport may do whatever the outside may.
  A handler has, besides, its own exchange, on which it may perform every
  exchange operation; under its name that exchange cannot be found meanwhile.

  Requests carry handlers, modules and transports, and these are programs that
  make requests, so all of them are defined here.
-/
import ExchangePipeline.Program
import ExchangePipeline.Reply
import ExchangePipeline.Scope

namespace ExchangePipeline

/-- Which chain to run an exchange along. -/
inductive ChainChoice where
  /-- The one it is bound to. -/
  | bound
  /-- One that is held under a name. -/
  | held (name : String)
deriving DecidableEq, Repr

/-- What can be done with one exchange. -/
inductive ExchangeOp where
  | view
  | property (key : String)
  | setProperty (key : String) (value : Value)
  | removeProperty (key : String)
  | setPayload (content : List UInt8)
  | takePayload
  /-- Asks for a pause. -/
  | pause
  /-- Requests cancellation at the next handler. -/
  | trip
  | run
  | resume
  | cancel
  | runChain (choice : ChainChoice)

/-- A request of a handler: about its own exchange, or to the session. -/
inductive Ask (ρ : Type) where
  | own (op : ExchangeOp)
  | request (request : ρ)

/-- A module: a bundle of handlers with a setup and a shutdown. -/
structure ModuleOf (ρ : Type) where
  name : String
  /-- The handlers it contributes to a flow, in registration order. -/
  handlers : Flow → List (Link (Program (Ask ρ) Reply Outcome))
  /-- Its setup, given the number of earlier attempts. -/
  init : Nat → Program ρ Reply Verdict
  shutdown : Program ρ Reply Verdict

/-- A registered name of a transport and the node with its parameters. -/
structure Endpoint where
  name : String
  node : NodeId
deriving DecidableEq, Repr

/-- The receiving or the sending side of a transport. -/
structure TransportOf (ρ : Type) where
  start : Endpoint → Program ρ Reply Verdict
  stop : Program ρ Reply Verdict

/-- The side of a transport. -/
inductive TransportRole where
  | listener
  | sender
deriving DecidableEq, Repr

/-- The two ways in: the full pipeline, which counts metrics, and one with a limit of its own
    directly before the engine. -/
inductive Gate where
  | pipeline
  | direct
deriving DecidableEq, Repr

/-- What can be asked of a session. -/
inductive Request where
  /- exchanges -/
  | open (name service operation : String) (direction : Flow) (payload : Option (List UInt8))
      (transport : Option TransportBinding)
  | exchange (name : String) (op : ExchangeOp)
  | trip (name : String)
  | holdChain (name service operation : String) (flow : Flow)
  | dispatch (gate : Gate) (name : String)
  | available
  | metrics
  /- the tree -/
  | addService (name : String)
  | addOperation (service name : String)
  | addTransport (name : String)
  | scopeNode (scope : Scope)
  | scopeLabel (scope : Scope)
  | moduleNode (name : String)
  | services
  | operations (service : String)
  | addParameter (node : NodeId) (parameter : Parameter)
  | parameter (node : NodeId) (name : String)
  | isLocked (node : NodeId) (name : String)
  | settings
  /- modules and handlers -/
  | registerModule (module : ModuleOf Request)
  | modules
  | moduleInfo (name : String)
  | initModule (name : String)
  | initModules
  | shutdownModules
  | engage (module : String) (scope : Scope)
  | disengage (module : String) (scope : Scope)
  | engaged (scope : Scope)
  | addHandler (scope : Scope) (flow : Flow)
      (link : Link (Program (Ask Request) Reply Outcome))
  /- phases and chains -/
  | declarePhases (order : PhaseOrder)
  | phaseOrder
  | chain (service operation : String) (flow : Flow)
  | cachedChain (service operation : String) (flow : Flow)
  | resolveAll
  /- transports -/
  | register (role : TransportRole) (transport : String) (side : TransportOf Request)
  | transports
  | initTransports
  | stopTransports
  /- everything -/
  | bootstrap
  | shutdown
  /- observation -/
  | note (note : Note)
  | glance (exchange : Option String)

/-- The program of a handler. -/
abbrev Handler := Program (Ask Request) Reply Outcome

/-- The program of a module or a transport. -/
abbrev Procedure := Program Request Reply Verdict

/-- A module. -/
abbrev Module := ModuleOf Request

/-- A side of a transport. -/
abbrev TransportSide := TransportOf Request

end ExchangePipeline
