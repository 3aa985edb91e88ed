/-
  ExchangePipeline/Script.lean
  ============================
  **Scripts**: handlers, modules and transports written as lists of actions.

  A script is compiled to a program.  It says what it does as it goes: a handler
  its name when it is invoked, a module when it is set up or shut down, and every
  step that a script takes in the session with the answer to it.
-/
import ExchangePipeline.Request

namespace ExchangePipeline

/-- A request and the name of the exchange that it is about, if any. -/
structure ScriptStep where
  request : Request
  about : Option String

/-- What a scripted handler does. -/
inductive ScriptAction where
  | set (key : String) (value : Value)
  /-- Appends to a text property; anything else counts as the empty text. -/
  | append (key text : String)
  /-- Adds one to an integer property; anything else counts as zero. -/
  | increment (key : String)
  | remove (key : String)
  | setPayload (content : List UInt8)
  | takePayload
  /-- Appends to the payload. -/
  | wrap (content : List UInt8)
  | pause
  | trip
  | peek
  /-- Tries to drive its own exchange. -/
  | meddle (op : ExchangeOp)
  | steps (steps : List ScriptStep)
  /-- Goes one way if a property is there and the other way if not. -/
  | whenPresent (key : String) (present absent : List ScriptAction)
  | finish (outcome : Outcome)

namespace Script

/-- A program of a handler that may go on. -/
abbrev Part := Program (Ask Request) Reply

/-- Performs an operation on the handler's own exchange. -/
def own (op : ExchangeOp) : Part Reply :=
  .send (.own op)

/-- Makes a note. -/
def note (n : Note) : Part Reply :=
  .send (.request (.note n))

/-- The property that a reply holds. -/
def property : Reply → Option Value
  | .value v => v
  | _ => none

/-- Takes steps in the session, each followed by a note of its answer and a glance around. -/
def takeSteps : List ScriptStep → Program Request Reply Unit
  | [] => .done ()
  | step :: rest => do
    let answer ← .send step.request
    let seen ← .send (.glance step.about)
    match seen with
    | .glance after => let _ ← .send (.note (.step answer after))
    | _ => pure ()
    takeSteps rest

/-- The same, inside a handler. -/
def takeStepsWithin : List ScriptStep → Part Unit
  | [] => .done ()
  | step :: rest => do
    let answer ← .send (.request step.request)
    let seen ← .send (.request (.glance step.about))
    match seen with
    | .glance after => let _ ← note (.step answer after)
    | _ => pure ()
    takeStepsWithin rest

mutual

/-- The program of an action; a result ends the handler. -/
def ofAction : ScriptAction → Part (Option Outcome)
  | .set key value => do
    let _ ← own (.setProperty key value)
    return none
  | .append key text => do
    let old := match property (← own (.property key)) with
      | some (.string s) => s
      | _ => ""
    let _ ← own (.setProperty key (.string (old ++ text)))
    return none
  | .increment key => do
    let old := match property (← own (.property key)) with
      | some (.int i) => i
      | _ => 0
    let _ ← own (.setProperty key (.int (old + 1)))
    return none
  | .remove key => do
    let _ ← note (.shown (← own (.removeProperty key)))
    return none
  | .setPayload content => do
    let _ ← own (.setPayload content)
    return none
  | .takePayload => do
    let _ ← note (.shown (← own .takePayload))
    return none
  | .wrap content => do
    let old := match ← own .takePayload with
      | .payload (some old) => old
      | _ => []
    let _ ← own (.setPayload (old ++ content))
    return none
  | .pause => do
    let _ ← own .pause
    return none
  | .trip => do
    let _ ← own .trip
    return none
  | .peek => do
    let _ ← note (.shown (← own .view))
    return none
  | .meddle op => do
    let _ ← note (.answered (← own op))
    return none
  | .steps steps => do
    takeStepsWithin steps
    return none
  | .whenPresent key present absent => do
    match property (← own (.property key)) with
    | some _ => ofActions present
    | none => ofActions absent
  | .finish outcome => .done (some outcome)

/-- The program of actions in order, up to the one that ends the handler. -/
def ofActions : List ScriptAction → Part (Option Outcome)
  | [] => .done none
  | action :: rest => do
    match ← ofAction action with
    | some outcome => return some outcome
    | none => ofActions rest

end

/-- A handler that says its name, performs its actions, and proceeds unless one of them ended it. -/
def handler (name : String) (actions : List ScriptAction) : Handler := do
  let _ ← note (.said ("h:" ++ name))
  return (← ofActions actions).getD (.ok .proceed)

/-- How the setup of a scripted module goes. -/
structure Setup where
  steps : List ScriptStep
  /-- The number of attempts that fail. -/
  failures : Nat
  cause : Cause

/-- A module that says when it is set up and, if it has one, when it performs its shutdown, which
    may fail. -/
def module (name : String) (handlers : Flow → List (Link Handler)) (setup : Setup)
    (shutdown : Option (Option Cause)) : Module where
  name := name
  handlers := handlers
  init attempt := do
    let _ ← .send (.note (.said ("init:" ++ name)))
    takeSteps setup.steps
    return if attempt < setup.failures then .error setup.cause else .ok ()
  shutdown := match shutdown with
    | none => .done (.ok ())
    | some failure => do
      let _ ← .send (.note (.said ("shutdown:" ++ name)))
      return match failure with
        | some cause => .error cause
        | none => .ok ()

/-- How a side of a scripted transport starts. -/
structure Start where
  steps : List ScriptStep
  /-- A parameter that has to be visible from the transport's node. -/
  needs : Option String
  failure : Option Cause

/-- Whether a needed parameter is missing at a node. -/
def lacks (node : NodeId) : Option String → Program Request Reply Bool
  | none => .done false
  | some name => do
    match ← .send (.parameter node name) with
    | .parameter (some _) => return false
    | _ => return true

/-- A side of a transport that says when it starts and, if it has one, when it performs its stop,
    which may fail. -/
def transport (role id : String) (start : Start) (stop : Option (Option Cause)) :
    TransportSide where
  start endpoint := do
    let _ ← .send (.note (.said
      (role ++ "-init:" ++ id ++ ":" ++ endpoint.name ++ "@" ++ toString endpoint.node)))
    takeSteps start.steps
    if ← lacks endpoint.node start.needs then
      return .error { message := "missing " ++ start.needs.getD "" }
    return match start.failure with
      | some cause => .error cause
      | none => .ok ()
  stop := match stop with
    | none => .done (.ok ())
    | some failure => do
      let _ ← .send (.note (.said (role ++ "-stop:" ++ id)))
      return match failure with
        | some cause => .error cause
        | none => .ok ()

end Script

end ExchangePipeline
