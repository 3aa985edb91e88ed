/-
  ExchangePipeline/Chain/Resolution.lean
  ======================================
  **Resolving contributed handlers into a chain.**

  Contributions come in registration order.  Each goes to the phase it names,
  which has to be declared for the flow; a name may come only once.  Within a
  phase the handler that claims the first place comes first, the one that claims
  the last place comes last, and the others stand in between in an order that
  respects their constraints, the earlier registered of two possible ones first.

  Constraints reach only handlers of the same phase.  Nothing is dropped: either
  every contribution is placed, or the resolution fails.
-/
import ExchangePipeline.Chain
import ExchangePipeline.Chain.Sorting
import ExchangePipeline.ConfigError

namespace ExchangePipeline

variable {β : Type}

/-- Whether `a` asks to run before `b`, or `b` to run after `a`. -/
def Link.precedes (a b : Link β) : Bool :=
  decide (b.name ∈ a.placement.before) || decide (a.name ∈ b.placement.after)

/-- The pairs of positions whose handlers have to run in that order, in increasing order. -/
def precedences (links : List (Link β)) : List (Nat × Nat) :=
  links.zipIdx.flatMap fun a =>
    (links.zipIdx.filter fun b => a.1.precedes b.1).map fun b => (a.2, b.2)

/-- The position of the only handler with a claim, if any has it, or the names of two rivals. -/
def soleClaimant (claims : Link β → Bool) (links : List (Link β)) :
    Except (String × String) (Option Nat) :=
  match links.zipIdx.filter fun entry => claims entry.1 with
  | [] => .ok none
  | [one] => .ok (some one.2)
  | one :: other :: _ => .error (one.1.name, other.1.name)

/-- The name of the handler at a position. -/
def nameAt (links : List (Link β)) (position : Nat) : String :=
  (links[position]?.map Link.name).getD ""

/-- A constraint that puts a handler before the first one or after the last one. -/
def outerConflict? (links : List (Link β)) (first last : Option Nat) : Option Conflict :=
  let edges := precedences links
  match first.bind fun f => (edges.find? fun edge => edge.2 = f).map fun edge => (f, edge.1) with
  | some (f, other) => some (.beforeFirst (nameAt links f) (nameAt links other))
  | none =>
    (last.bind fun l => (edges.find? fun edge => edge.1 = l).map fun edge => (l, edge.2)).map
      fun (l, other) => .afterLast (nameAt links l) (nameAt links other)

/-- The positions of the handlers between the first and the last one. -/
def innerPositions (links : List (Link β)) (first last : Option Nat) : List Nat :=
  (List.range links.length).filter fun i => some i ≠ first && some i ≠ last

/-- The order of the handlers of one phase, as positions. -/
def orderPositions (links : List (Link β)) : Except Conflict (List Nat) := do
  let first ← (soleClaimant (fun link => link.placement.first) links).mapError
    fun rivals => .rivalsForFirst rivals.1 rivals.2
  let last ← (soleClaimant (fun link => link.placement.last) links).mapError
    fun rivals => .rivalsForLast rivals.1 rivals.2
  if first = last ∧ first ≠ none then
    if 1 < links.length then throw (.bothEnds (nameAt links (first.getD 0)))
    else return List.range links.length
  else
    match outerConflict? links first last with
    | some conflict => throw conflict
    | none =>
      let inner ← (topologicalOrder (innerPositions links first last) (precedences links)).mapError
        fun stuck => .cycle (stuck.map (nameAt links))
      return first.toList ++ inner ++ last.toList

/-- Puts the handlers of one phase in order. -/
def orderPhase (phase : String) (links : List (Link β)) : Except ConfigError (List (Link β)) :=
  match orderPositions links with
  | .ok positions => .ok (positions.filterMap fun i => links[i]?)
  | .error conflict => .error (.phaseConflict phase conflict)

/-- The earliest contribution that names an undeclared phase or a name already seen. -/
def checkContributions (flow : Flow) (declared : List String) :
    List String → List (Link β) → Except ConfigError Unit
  | _, [] => .ok ()
  | seen, link :: rest =>
    if link.phase ∉ declared then .error (.unknownPhase link.phase link.name flow)
    else if link.name ∈ seen then .error (.duplicateHandler link.phase link.name)
    else checkContributions flow declared (link.name :: seen) rest

/-- Fills the declared phases in order.  A phase declared again stays empty: its handlers stand
    where it was declared first. -/
def fillPhases (links : List (Link β)) :
    List String → List String → Except ConfigError (List (Phase β))
  | _, [] => .ok []
  | seen, name :: rest => do
    let bucket := if name ∈ seen then [] else links.filter fun link => link.phase = name
    let ordered ← orderPhase name bucket
    let phases ← fillPhases links (name :: seen) rest
    return { name, links := ordered } :: phases

/-- Resolves contributions, in registration order, into the chain of a flow. -/
def resolve (order : PhaseOrder) (flow : Flow) (links : List (Link β)) :
    Except ConfigError (Chain β) := do
  checkContributions flow (order.phases flow) [] links
  let phases ← fillPhases links [] (order.phases flow)
  return { flow, phases }

end ExchangePipeline
