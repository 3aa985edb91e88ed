/-
  ExchangePipeline/Session/Perform.lean
  =====================================
  **Performing requests.**

  `perform` gives every request its meaning, with the meaning of programs still
  open; `nested` closes the circle: programs are run by performing their requests
  one level deeper.  The number of levels is bounded, so that everything ends;
  what would go deeper gives no answer at all.
-/
import ExchangePipeline.Session.Dispatch
import ExchangePipeline.Session.Lifecycle

namespace ExchangePipeline

namespace Session

/-- A result as a reply. -/
def reply {α : Type} (f : α → Reply) : Except ConfigError α → Reply
  | .ok a => f a
  | .error error => .refused (.config error)

/-- The result of a deployment step as a reply. -/
def deploymentReply {α : Type} (f : α → Reply) : Except DeploymentError α → Reply
  | .ok a => f a
  | .error error => .refused error.refusal

/-- How outside code ended, as a reply. -/
def verdictReply : Verdict → Reply
  | .ok () => .done
  | .error cause => .refused (.shutdown cause)

/-- Opens an exchange under a name, in place of the one that had it. -/
def openExchange (name service operation : String) (direction : Flow)
    (payload : Option (List UInt8)) (transport : Option TransportBinding) (s : Session) : Session :=
  let id := s.nextExchange
  let x := .create id service operation direction payload transport
  { s with
    exchanges := Dict.insert name x s.exchanges
    handles := Dict.insert name id s.handles
    nextExchange := id + 1 }

/-- Performs a request. -/
def perform (inner : Inner) (request : Request) : Doing Reply := do
  match request with
  | .open name service operation direction payload transport =>
    modify (openExchange name service operation direction payload transport)
    return .done
  | .exchange name op => performOnNamed inner name op
  | .trip name =>
    match Dict.find? name (← get).handles with
    | none => return .refused .noExchange
    | some id =>
      modify (trip id)
      return .done
  | .holdChain name service operation flow =>
    match ← chainFor service operation flow with
    | .error error => return .refused (.config error)
    | .ok chain =>
      modify fun s => { s with heldChains := Dict.insert name chain s.heldChains }
      return .names chain.handlerNames
  | .dispatch gate name => dispatchNamed inner gate name
  | .available => return .count ((← get).permits .direct)
  | .metrics => return .metrics (Metric.totals (← get).samples)
  | .addService name => return reply (fun id => .index (some id)) (← change fun d => do
      let (id, tree) ← d.tree.addService name
      return (id, { d with tree }))
  | .addOperation service name => return reply (fun id => .index (some id)) (← change fun d => do
      let (id, tree) ← d.tree.addOperation service name
      return (id, { d with tree }))
  | .addTransport name => return reply (.endpoint name) (← change fun d => do
      let (id, tree) ← d.tree.addTransport name
      return (id, { d with tree }))
  | .scopeNode scope =>
    return reply (fun id => .index (some id)) ((← get).deployment.tree.scopeNode scope)
  | .scopeLabel scope => return .text scope.label
  | .moduleNode name => return .index ((← get).deployment.tree.module? name)
  | .services => return .names (← get).deployment.tree.services
  | .operations service => return .names ((← get).deployment.tree.operations service)
  | .addParameter node parameter => return reply (fun _ => .done) (← changeOnly fun d =>
      (d.tree.addParameter node parameter).map fun tree => { d with tree })
  | .parameter node name => return .parameter ((← get).deployment.tree.parameter? node name)
  | .isLocked node name => return .flag ((← get).deployment.tree.isLocked node name)
  | .settings => return .settings (← get).deployment.settings
  | .registerModule module =>
    return reply (fun id => .index (some id)) (← registerModule module)
  | .modules => return .modules (← get).moduleList
  | .moduleInfo name => return .module name ((← get).moduleView name)
  | .initModule name => return deploymentReply (fun _ => .done) (← initModule inner name)
  | .initModules => return deploymentReply (fun _ => .done) (← initModules inner)
  | .shutdownModules => return verdictReply (← shutdownModules inner)
  | .engage module scope => return deploymentReply .flag (← engage inner module scope)
  | .disengage module scope => return reply .flag (← change fun d => d.disengage module scope)
  | .engaged scope => return reply .names ((← get).deployment.engaged scope)
  | .addHandler scope flow link =>
    return reply (fun _ => .done) (← take fun d => d.addHandler scope flow link)
  | .declarePhases order =>
    return reply (fun _ => .done) (← changeOnly fun d => d.declarePhases order)
  | .phaseOrder => return .order (← get).deployment.order
  | .chain service operation flow =>
    return reply (fun chain => .chain (some chain.view))
      (← change fun d => d.chain { service, operation, flow })
  | .cachedChain service operation flow =>
    return .chain (((← get).deployment.cached? { service, operation, flow }).map (·.chain.view))
  | .resolveAll => return reply .count (← resolveAll)
  | .register role transport side => registerTransport role transport side
  | .transports =>
    let d := (← get).deployment
    return .transports (d.listeners.map (·.endpoint.name)) (d.senders.map (·.endpoint.name))
  | .initTransports => return .count (← initTransports inner)
  | .stopTransports =>
    stopTransports inner
    return .done
  | .bootstrap => return deploymentReply (fun _ => .done) (← bootstrap inner)
  | .shutdown => return verdictReply (← shutdown inner)
  | .note note =>
    modify (record (.noted note))
    return .done
  | .glance name => return .glance ((← get).glance name)

/-- What a handler asks for, on its own exchange or of the session. -/
def answer (inner : Inner) : Ask Request → StateT (Exchange Handler) Doing Reply
  | .own op => fun x => performOn inner op x
  | .request request => fun x => do return (← perform inner request, x)

/-- Programs, nested up to a number of levels. -/
def nested : Nat → Inner
  | 0 => { invoke := fun _ _ => throw .tooDeep, carryOut := fun _ => throw .tooDeep }
  | depth + 1 => {
      invoke := fun link x => do
        modify (record (.invoked x.id link))
        (link.body.run (answer (nested depth))).run x
      carryOut := fun procedure => procedure.run (perform (nested depth)) }

/-- How deep programs are nested in a session at most.  No gate has as many permits, so a chain of
    dispatches through one gate, each from inside a handler of the one before, ends for want of a
    permit and not here. -/
def levels : Nat := UInt32.size

/-- Answers a request from outside; the journal then holds what the request brought about. -/
def serve (request : Request) (s : Session) : Except Halt (Reply × Session) :=
  (perform (nested levels) request).run { s with journal := [] }

/-! ### Building -/

/-- Performs requests up to the first that fails as a deployment step; the other replies are
    noted. -/
def build (inner : Inner) : List Request → Doing (Except DeploymentError Unit)
  | [] => return .ok ()
  | request :: rest => do
    let result ← perform inner request
    let failure := match result with
      | .refused refusal => refusal.deploymentError?
      | _ => none
    match failure with
    | some error => return .error error
    | none =>
      modify (record (.noted (.answered result)))
      build inner rest

/-- Builds a configuration and brings it up. -/
def assemble (inner : Inner) (requests : List Request) : Doing (Except DeploymentError Unit) := do
  match ← build inner requests with
  | .error error => return .error error
  | .ok () => bootstrap inner

/-- A session on a new deployment with these settings, built and brought up by these requests. -/
def deploy (settings : EngineSettings) (requests : List Request) :
    Except Halt (Except DeploymentError Unit × Session) :=
  (assemble (nested levels) requests).run (.create .deployed (.empty settings))

end Session

end ExchangePipeline
