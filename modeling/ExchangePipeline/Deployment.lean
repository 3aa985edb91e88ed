/-
  ExchangePipeline/Deployment.lean
  ================================
  **Deployments**: the configuration tree with the modules engaged and the
  handlers declared in it, and the chains resolved from them.

  A chain is made of what is contributed on the way from the root to the node of
  its operation.  Changes that touch chains are tried first: every chain at and
  below their scope is resolved against the changed deployment, and only if all
  of them succeed is the change kept and are the chains that it touches dropped
  from the cache.  Otherwise the change is taken back again: such a step gives its
  result together with the deployment that it leaves, in either case.

  Setting up a module runs its own code, which may change the deployment; that
  part is the session's business, and here a module's status is just written.
-/
import ExchangePipeline.Chain.Resolution
import ExchangePipeline.Request

namespace ExchangePipeline

/-- How far the setup of a module is. -/
inductive ModuleStatus where
  | pending
  | running
  | ready
deriving DecidableEq, Repr

/-- A registered module. -/
structure RegisteredModule where
  module : Module
  /-- How often its setup has been begun. -/
  attempts : Nat
  status : ModuleStatus

/-- What a cached chain is found by. -/
structure ChainKey where
  service : String
  operation : String
  flow : Flow
deriving DecidableEq, Repr

/-- A chain in the cache.  Its serial number tells it from an equal chain resolved another time. -/
structure CachedChain where
  chain : Chain Handler
  serial : Nat

/-- A side of a transport with its endpoint. -/
structure RegisteredTransport where
  endpoint : Endpoint
  side : TransportSide

/-- A deployed configuration. -/
structure Deployment where
  settings : EngineSettings
  tree : Tree
  /-- The handlers declared at a node for a flow, in order; no empty list is kept. -/
  declared : List ((NodeId × Flow) × List (Link Handler))
  order : PhaseOrder
  /-- The modules in registration order. -/
  modules : List RegisteredModule
  listeners : List RegisteredTransport
  senders : List RegisteredTransport
  cache : List (ChainKey × CachedChain)
  /-- The number of chains resolved for the cache so far. -/
  serials : Nat
  /-- Counts the changes that dropped chains. -/
  generation : UInt64

namespace Deployment

/-- Nothing deployed yet. -/
def empty (settings : EngineSettings) : Deployment where
  settings := settings
  tree := .empty
  declared := []
  order := settings.phaseOrder
  modules := []
  listeners := []
  senders := []
  cache := []
  serials := 0
  generation := 0

/-! ### Modules -/

/-- The registered module of a name. -/
def module? (d : Deployment) (name : String) : Option RegisteredModule :=
  d.modules.find? fun m => m.module.name = name

/-- Whether the setup of a module has succeeded. -/
def isReady (d : Deployment) (name : String) : Bool :=
  match d.module? name with
  | some m => m.status = .ready
  | none => false

/-- The handlers that a module contributes to a flow. -/
def moduleHandlers (d : Deployment) (flow : Flow) (name : String) : List (Link Handler) :=
  match d.module? name with
  | some m => m.module.handlers flow
  | none => []

/-- Changes what is kept about a module. -/
def updateModule (d : Deployment) (name : String) (f : RegisteredModule → RegisteredModule) :
    Deployment :=
  { d with modules := d.modules.map fun m => if m.module.name = name then f m else m }

/-- Registers a module, then gives it a node. -/
def registerModule (d : Deployment) (module : Module) : Except ConfigError NodeId × Deployment :=
  if (d.module? module.name).isSome ∨ (d.tree.module? module.name).isSome then
    (.error (.alreadyDeployed ("module:" ++ module.name)), d)
  else
    let registered : Deployment := { d with
      modules := d.modules ++ [{ module, attempts := 0, status := .pending }] }
    match registered.tree.addModule module.name with
    | .error error => (.error error, registered)
    | .ok (id, tree) => (.ok id, { registered with tree })

/-! ### Contributions -/

/-- The modules engaged at a node, in order. -/
def engagedAt (d : Deployment) (id : NodeId) : List String :=
  match d.tree.node? id with
  | some node => node.engaged
  | none => []

/-- The handlers declared at a node for a flow, in order. -/
def declaredAt (d : Deployment) (id : NodeId) (flow : Flow) : List (Link Handler) :=
  (d.declared.lookup (id, flow)).getD []

/-- What the nodes of a path contribute to a flow: at each node the engaged modules, then the
    declared handlers.  Modules that were seen before contribute nothing more. -/
def contributionsAlong (d : Deployment) (flow : Flow) :
    List String → List NodeId → List (Link Handler)
  | _, [] => []
  | seen, id :: rest =>
    let engaged := (d.engagedAt id).filter fun name => name ∉ seen
    engaged.flatMap (d.moduleHandlers flow) ++ d.declaredAt id flow
      ++ contributionsAlong d flow (seen ++ engaged) rest

/-- What is contributed to a flow from the root down to a node. -/
def contributions (d : Deployment) (id : NodeId) (flow : Flow) : List (Link Handler) :=
  d.contributionsAlong flow [] (d.tree.ancestry id).reverse

/-! ### Changes -/

/-- Resolves the chains of the given nodes and flows; the first error counts. -/
def resolveTargets (d : Deployment) (order : PhaseOrder) :
    List (NodeId × Flow) → Except ConfigError Unit
  | [] => .ok ()
  | (id, flow) :: rest =>
    match resolve order flow (d.contributions id flow) with
    | .error error => .error error
    | .ok _ => resolveTargets d order rest

/-- Resolves every chain at and below a scope, whose node is given. -/
def validate (d : Deployment) (order : PhaseOrder) (scope : Scope) (id : NodeId) :
    Except ConfigError Unit :=
  d.resolveTargets order
    ((d.tree.nodesBelow scope id).flatMap fun node => Flow.all.map fun flow => (node, flow))

/-- Drops the cached chains of a scope and counts the change. -/
def invalidate (d : Deployment) (scope : Scope) : Deployment :=
  { d with
    cache := d.cache.filter fun entry => !scope.covers entry.1.service entry.1.operation
    generation := d.generation + 1 }

/-- Takes the engagement of a module at a node back, because of an error. -/
def takeBackEngagement (d : Deployment) (id : NodeId) (module : String) (error : ConfigError) :
    Except ConfigError Bool × Deployment :=
  match d.tree.disengage id module with
  | .error unknown => (.error unknown, d)
  | .ok (_, tree) => (.error error, { d with tree })

/-- Engages a module, whose setup has succeeded, at a scope; `false` if it is engaged there.  The
    engagement is taken back if something below the scope does not resolve with it. -/
def engage (d : Deployment) (module : String) (scope : Scope) :
    Except ConfigError Bool × Deployment :=
  match d.tree.scopeNode scope with
  | .error error => (.error error, d)
  | .ok id =>
    match d.tree.engage id module with
    | .error error => (.error error, d)
    | .ok (false, tree) => (.ok false, { d with tree })
    | .ok (true, tree) =>
      let changed : Deployment := { d with tree }
      match changed.validate changed.order scope id with
      | .error error => changed.takeBackEngagement id module error
      | .ok () => (.ok true, changed.invalidate scope)

/-- Ends the engagement of a module at a scope; `false` if it is not engaged there. -/
def disengage (d : Deployment) (module : String) (scope : Scope) :
    Except ConfigError (Bool × Deployment) := do
  let id ← d.tree.scopeNode scope
  let (removed, tree) ← d.tree.disengage id module
  let changed : Deployment := { d with tree }
  if removed then return (true, changed.invalidate scope)
  else return (false, changed)

/-- The modules engaged at a scope. -/
def engaged (d : Deployment) (scope : Scope) : Except ConfigError (List String) := do
  return d.engagedAt (← d.tree.scopeNode scope)

/-- Appends a handler to those declared under a key. -/
def declareHandler (key : NodeId × Flow) (link : Link Handler) :
    List ((NodeId × Flow) × List (Link Handler)) → List ((NodeId × Flow) × List (Link Handler))
  | [] => [(key, [link])]
  | (k, links) :: rest =>
    if k = key then (k, links ++ [link]) :: rest else (k, links) :: declareHandler key link rest

/-- Takes the handler back that was declared last under a key.  If it was the only one, the key
    goes with it. -/
def takeBackHandler (key : NodeId × Flow) :
    List ((NodeId × Flow) × List (Link Handler)) → List ((NodeId × Flow) × List (Link Handler))
  | [] => []
  | (k, links) :: rest =>
    if k = key then
      if links.dropLast.isEmpty then rest else (k, links.dropLast) :: rest
    else (k, links) :: takeBackHandler key rest

/-- Declares a handler at a scope for a flow.  The declaration is taken back if something below the
    scope does not resolve with it. -/
def addHandler (d : Deployment) (scope : Scope) (flow : Flow) (link : Link Handler) :
    Except ConfigError Unit × Deployment :=
  match d.tree.scopeNode scope with
  | .error error => (.error error, d)
  | .ok id =>
    let changed : Deployment :=
      { d with declared := declareHandler (id, flow) link d.declared }
    match changed.validate changed.order scope id with
    | .error error =>
      (.error error, { changed with declared := takeBackHandler (id, flow) changed.declared })
    | .ok () => (.ok (), changed.invalidate scope)

/-- Declares the phases anew. -/
def declarePhases (d : Deployment) (order : PhaseOrder) : Except ConfigError Deployment := do
  d.validate order .everywhere rootId
  return { d with order }.invalidate .everywhere

/-! ### Chains -/

/-- The chain in the cache. -/
def cached? (d : Deployment) (key : ChainKey) : Option CachedChain :=
  d.cache.lookup key

/-- The chain of a key: the cached one, or a newly resolved one, which is put into the cache. -/
def chain (d : Deployment) (key : ChainKey) : Except ConfigError (Chain Handler × Deployment) :=
  match d.cached? key with
  | some cached => .ok (cached.chain, d)
  | none => do
    let id ← d.tree.scopeNode (.operation key.service key.operation)
    let chain ← resolve d.order key.flow (d.contributions id key.flow)
    return (chain, { d with
      cache := d.cache ++ [(key, { chain, serial := d.serials })]
      serials := d.serials + 1 })

/-- The keys of all chains of all deployed operations. -/
def allKeys (d : Deployment) : List ChainKey :=
  d.tree.services.flatMap fun service =>
    (d.tree.operations service).flatMap fun operation =>
      Flow.all.map fun flow => { service, operation, flow }

/-- Has the chains of the keys in the cache, up to the first one that cannot be resolved. -/
def cacheAll : List ChainKey → Deployment → Except ConfigError Unit × Deployment
  | [], d => (.ok (), d)
  | key :: rest, d =>
    match d.chain key with
    | .error error => (.error error, d)
    | .ok (_, d) => cacheAll rest d

/-- Has every chain in the cache, and counts them. -/
def resolveAll (d : Deployment) : Except ConfigError Nat × Deployment :=
  let keys := d.allKeys
  let (result, d) := cacheAll keys d
  (result.map fun _ => keys.length, d)

/-! ### Transports -/

/-- The registered transports of a role, in registration order. -/
def transportsOf (d : Deployment) : TransportRole → List RegisteredTransport
  | .listener => d.listeners
  | .sender => d.senders

/-- Registers a side of a transport. -/
def registerTransport (d : Deployment) (role : TransportRole) (t : RegisteredTransport) :
    Deployment :=
  match role with
  | .listener => { d with listeners := d.listeners ++ [t] }
  | .sender => { d with senders := d.senders ++ [t] }

end Deployment

end ExchangePipeline
