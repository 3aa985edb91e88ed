/-
  ExchangePipeline/Session/Lifecycle.lean
  =======================================
  **Setting modules and transports up, and shutting them down.**

  A module is set up once: later requests find it ready.  If its setup fails, the
  next request tries again; a setup that waits for itself never ends.  Transports
  are independent of each other: one that fails is passed over.
-/
import ExchangePipeline.Session.Driving

namespace ExchangePipeline

namespace Session

/-! ### Modules -/

/-- Registers a module. -/
def registerModule (module : Module) : Doing (Except ConfigError NodeId) := do
  match ← take fun d => d.registerModule module with
  | .error error => return .error error
  | .ok id =>
    for flow in Flow.all do
      modify (record (.contributed module.name flow))
    return .ok id

/-- Sets a module up, unless it is ready. -/
def initModule (inner : Inner) (name : String) : Doing (Except DeploymentError Unit) := do
  match (← get).deployment.module? name with
  | none => return .error (.config (.unknownModule name))
  | some m =>
    match m.status with
    | .ready => return .ok ()
    | .running => throw .blocked
    | .pending =>
      modifyDeployment fun d => d.updateModule name fun m =>
        { m with attempts := m.attempts + 1, status := .running }
      modify (record (.initBegan name))
      match ← inner.carryOut (m.module.init m.attempts) with
      | .ok () =>
        modifyDeployment fun d => d.updateModule name fun m => { m with status := .ready }
        modify (record (.initEnded name true))
        return .ok ()
      | .error cause =>
        modifyDeployment fun d => d.updateModule name fun m => { m with status := .pending }
        modify (record (.initEnded name false))
        return .error (.moduleInit name cause)

/-- Sets the named modules up, up to the first failure. -/
def initEach (inner : Inner) : List String → Doing (Except DeploymentError Unit)
  | [] => return .ok ()
  | name :: rest => do
    match ← initModule inner name with
    | .error error => return .error error
    | .ok () => initEach inner rest

/-- Sets all modules up that are registered now, in registration order. -/
def initModules (inner : Inner) : Doing (Except DeploymentError Unit) := do
  initEach inner ((← get).deployment.modules.map fun m => m.module.name)

/-- Shuts the named modules down, up to the first failure. -/
def shutDownEach (inner : Inner) : List String → Doing Verdict
  | [] => return .ok ()
  | name :: rest => do
    match (← get).deployment.module? name with
    | none => shutDownEach inner rest
    | some m =>
      modify (record (.moduleShutDown name))
      match ← inner.carryOut m.module.shutdown with
      | .error cause => return .error cause
      | .ok () => shutDownEach inner rest

/-- Shuts modules down in reverse registration order, up to the first failure. -/
def shutdownModules (inner : Inner) : Doing Verdict := do
  shutDownEach inner ((← get).deployment.modules.map fun m => m.module.name).reverse

/-- Engages a module at a scope, after setting it up. -/
def engage (inner : Inner) (module : String) (scope : Scope) :
    Doing (Except DeploymentError Bool) := do
  let d := (← get).deployment
  if (d.module? module).isNone then return .error (.config (.unknownModule module))
  else
    match d.tree.scopeNode scope with
    | .error error => return .error (.config error)
    | .ok _ =>
      match ← initModule inner module with
      | .error error => return .error error
      | .ok () => return (← take fun d => d.engage module scope).mapError .config

/-! ### Transports -/

/-- Starts transports one after the other, and counts those that start. -/
def startEach (inner : Inner) (role : TransportRole) : List RegisteredTransport → Doing Nat
  | [] => return 0
  | t :: rest => do
    modify (record (.transportStarted role t.endpoint))
    let verdict ← inner.carryOut (t.side.start t.endpoint)
    let others ← startEach inner role rest
    return (if verdict.isOk then 1 else 0) + others

/-- Starts the listeners, then the senders, that are registered now. -/
def initTransports (inner : Inner) : Doing Nat := do
  let d := (← get).deployment
  let listeners ← startEach inner .listener d.listeners
  let senders ← startEach inner .sender d.senders
  return listeners + senders

/-- Stops transports one after the other, whether or not they fail. -/
def stopEach (inner : Inner) (role : TransportRole) : List RegisteredTransport → Doing Unit
  | [] => return ()
  | t :: rest => do
    modify (record (.transportStopped role t.endpoint))
    let _ ← inner.carryOut t.side.stop
    stopEach inner role rest

/-- Stops the listeners, then the senders, each in reverse registration order. -/
def stopTransports (inner : Inner) : Doing Unit := do
  let d := (← get).deployment
  stopEach inner .listener d.listeners.reverse
  stopEach inner .sender d.senders.reverse

/-- Registers a side of a transport that has a node. -/
def registerTransport (role : TransportRole) (name : String) (side : TransportSide) :
    Doing Reply := do
  match (← get).deployment.tree.transport? name with
  | none => return .refused .noTransport
  | some node =>
    modifyDeployment fun d => d.registerTransport role { endpoint := { name, node }, side }
    return .done

/-! ### Everything -/

/-- Has every chain in the cache. -/
def resolveAll : Doing (Except ConfigError Nat) :=
  take Deployment.resolveAll

/-- Sets all modules up, has every chain in the cache, then starts the transports. -/
def bootstrap (inner : Inner) : Doing (Except DeploymentError Unit) := do
  match ← initModules inner with
  | .error error => return .error error
  | .ok () =>
    match ← resolveAll with
    | .error error => return .error (.config error)
    | .ok _ =>
      let _ ← initTransports inner
      return .ok ()

/-- Stops the transports, then shuts the modules down. -/
def shutdown (inner : Inner) : Doing Verdict := do
  stopTransports inner
  shutdownModules inner

end Session

end ExchangePipeline
