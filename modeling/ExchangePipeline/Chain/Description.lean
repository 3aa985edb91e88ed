/-
  ExchangePipeline/Chain/Description.lean
  =======================================
  **Descriptions of chains, phases and placed handlers**, for diagnosis.

  A description names the kind of thing and its fields; the body of a handler is
  left out, and two points stand for it.
-/
import ExchangePipeline.Chain
import ExchangePipeline.Text.Quoted

namespace ExchangePipeline

/-- A name with the fields of a description. -/
def describeRecord (kind : String) (fields : List (String × String)) (more : Bool) : String :=
  let shown := fields.map fun field => field.1 ++ ": " ++ field.2
  kind ++ " \x7b " ++ ", ".intercalate (if more then shown ++ [".."] else shown) ++ " \x7d"

/-- A list of names. -/
def describeNames (names : List String) : String :=
  "[" ++ Quoted.quoteAll names ++ "]"

/-- A set of names. -/
def describeSet (names : NameSet) : String :=
  "\x7b" ++ Quoted.quoteAll names.toList ++ "\x7d"

/-- A truth value. -/
def describeBool (b : Bool) : String := if b then "true" else "false"

namespace Placement

/-- All fields of a placement. -/
def describe (p : Placement) : String :=
  describeRecord "HandlerDescription" [
    ("name", Quoted.quote p.name), ("phase", Quoted.quote p.phase),
    ("before", describeSet p.before), ("after", describeSet p.after),
    ("phase_first", describeBool p.first), ("phase_last", describeBool p.last)] false

end Placement

variable {β : Type}

/-- The placement of a handler. -/
def Link.describe (link : Link β) : String :=
  describeRecord "ChainEntry" [("description", link.placement.describe)] true

/-- The name of a phase and those of its handlers. -/
def Phase.describe (phase : Phase β) : String :=
  describeRecord "Phase" [
    ("name", Quoted.quote phase.name), ("handlers", describeNames phase.handlerNames)] false

/-- The flow of a chain and the names of its handlers. -/
def Chain.describe (chain : Chain β) : String :=
  describeRecord "HandlerChain" [
    ("flow", chain.flow.name), ("handlers", describeNames chain.handlerNames)] false

end ExchangePipeline
