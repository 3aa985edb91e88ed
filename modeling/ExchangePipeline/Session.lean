/-
  ExchangePipeline/Session.lean
  =============================
  **Sessions**: a deployment together with the exchanges that are driven on it.

  Exchanges are kept under names.  One that is being driven is taken out of the
  names for that time and put back afterwards, whatever became of it; requests
  for cancellation reach it all the same, since they are kept beside the
  exchanges, by number.

  A session keeps a journal of what it does on behalf of its users: which
  handlers it invokes on which exchange, which exchanges are to be cancelled,
  when the setup of a module begins and how it ends, which dispatches it lets in,
  and what programs note.
-/
import ExchangePipeline.Deployment
import ExchangePipeline.Walk

namespace ExchangePipeline

/-- Where chains come from. -/
inductive ChainSource where
  /-- From the deployment and its cache. -/
  | deployed
  /-- The same handlers for every service and operation, resolved each time they are asked for. -/
  | fixed (order : PhaseOrder) (handlers : List (Flow × List (Link Handler)))

/-- What a dispatch hands back: a status or an error, and the exchange in either case. -/
abbrev Dispatched := Except DispatchError Status × Exchange Handler

/-- What a session does. -/
inductive Event where
  /-- A handler is invoked on the exchange of a number. -/
  | invoked (exchange : Nat) (link : Link Handler)
  /-- Cancellation of the exchange of a number is requested. -/
  | tripped (exchange : Nat)
  /-- A module is registered and asked for its handlers of a flow. -/
  | contributed (module : String) (flow : Flow)
  | initBegan (module : String)
  | initEnded (module : String) (succeeded : Bool)
  | moduleShutDown (module : String)
  | transportStarted (role : TransportRole) (endpoint : Endpoint)
  | transportStopped (role : TransportRole) (endpoint : Endpoint)
  /-- The dispatch of an exchange is given a permit. -/
  | entered (gate : Gate) (exchange : Exchange Handler)
  /-- The dispatch of an exchange, as it came, gives its permit back and hands this back. -/
  | left (gate : Gate) (exchange : Exchange Handler) (handed : Dispatched)
  /-- The dispatch of an exchange finds no free permit. -/
  | turnedAway (gate : Gate) (exchange : Exchange Handler)
  | noted (note : Note)

/-- A deployment and the exchanges driven on it. -/
structure Session where
  source : ChainSource
  deployment : Deployment
  /-- The exchanges that are not under way, by name. -/
  exchanges : Dict (Exchange Handler)
  /-- For each name the number of the exchange that was last opened under it. -/
  handles : Dict Nat
  /-- Chains kept by name. -/
  heldChains : Dict (Chain Handler)
  /-- The numbers of the exchanges whose cancellation has been requested. -/
  tripped : List Nat
  /-- The number of the next exchange. -/
  nextExchange : Nat
  /-- The permits that are free at each gate. -/
  permits : Gate → Nat
  /-- Everything counted so far. -/
  samples : List Metric
  /-- What has been done, the latest first. -/
  journal : List Event

namespace Session

/-- A session on a deployment, with as many permits at each gate as its settings allow. -/
def create (source : ChainSource) (deployment : Deployment) : Session where
  source := source
  deployment := deployment
  exchanges := []
  handles := []
  heldChains := []
  tripped := []
  nextExchange := 0
  permits := fun _ => deployment.settings.maxConcurrentExchanges.toNat
  samples := []
  journal := []

/-- Writes an event into the journal. -/
def record (event : Event) (s : Session) : Session :=
  { s with journal := event :: s.journal }

/-- What the journal tells, in the order in which it was done. -/
def events (s : Session) : List Event :=
  s.journal.reverse

/-- An event that is recorded comes after all others. -/
@[simp]
theorem events_record (event : Event) (s : Session) :
    (s.record event).events = s.events ++ [event] := by
  simp [events, record]

/-- Counts metrics. -/
def sample (metrics : List Metric) (s : Session) : Session :=
  { s with samples := metrics ++ s.samples }

/-- Sets the free permits of a gate. -/
def setPermits (gate : Gate) (free : Nat) (s : Session) : Session :=
  { s with permits := fun g => if g = gate then free else s.permits g }

/-- Whether cancellation of the exchange of a number has been requested. -/
def isTripped (id : Nat) (s : Session) : Bool :=
  s.tripped.contains id

/-- Requests cancellation of the exchange of a number. -/
def trip (id : Nat) (s : Session) : Session :=
  { s.record (.tripped id) with tripped := id :: s.tripped }

/-- What the outside sees of an exchange. -/
def viewOf (s : Session) (x : Exchange Handler) : ExchangeView :=
  x.view (s.isTripped x.id)

/-- What is seen of the exchange of a name, if it is there and not under way. -/
def glance (s : Session) (name : Option String) : Glance where
  exchange := name.bind fun n => (Dict.find? n s.exchanges).map s.viewOf
  generation := s.deployment.generation
  cachedChains := s.deployment.cache.length

/-- The names of all modules, and whether each is initialized. -/
def moduleList (s : Session) : List (String × Bool) :=
  s.deployment.modules.map fun m => (m.module.name, m.status = .ready)

/-- What is known of a module. -/
def moduleView (s : Session) (name : String) : ModuleView where
  known := (s.deployment.module? name).isSome
  initialized := s.deployment.isReady name
  contributions := fun flow => (s.deployment.moduleHandlers flow name).map Link.name

end Session

/-- A computation on a session. -/
abbrev Doing := Act Session

namespace Session

/-- Takes a step of the deployment that is refused before it changes anything, or accepted. -/
def change {α : Type} (step : Deployment → Except ConfigError (α × Deployment)) :
    Doing (Except ConfigError α) := do
  let s ← get
  match step s.deployment with
  | .error error => return .error error
  | .ok (a, deployment) =>
    set { s with deployment }
    return .ok a

/-- Takes a step of the deployment that gives nothing back. -/
def changeOnly (step : Deployment → Except ConfigError Deployment) :
    Doing (Except ConfigError Unit) :=
  change fun d => (step d).map fun d => ((), d)

/-- Takes a step of the deployment that may be refused, and leaves what it makes of the deployment
    in either case. -/
def take {α : Type} (step : Deployment → α × Deployment) : Doing α := do
  let s ← get
  let (a, deployment) := step s.deployment
  set { s with deployment }
  return a

/-- Changes the deployment. -/
def modifyDeployment (f : Deployment → Deployment) : Doing Unit :=
  modify fun s => { s with deployment := f s.deployment }

/-- The chain of a service, an operation and a flow. -/
def chainFor (service operation : String) (flow : Flow) :
    Doing (Except ConfigError (Chain Handler)) := do
  match (← get).source with
  | .deployed => change fun d => d.chain { service, operation, flow }
  | .fixed order handlers =>
    match handlers.lookup flow with
    | some links => return resolve order flow links
    | none => return .error (.unknownOperation service operation)

end Session

end ExchangePipeline
