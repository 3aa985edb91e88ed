/-
  ExchangePipeline/Chain/Sorting.lean
  ===================================
  **Putting numbered nodes in an order that respects edges.**

  A node is ready once every listed node with an edge to it has been placed.  The
  sorting places the smallest ready node, takes it off the count of unplaced
  predecessors of its successors, and makes those ready whose count falls to
  zero.  It ends when no node is ready; the nodes left then, if any, lie on
  cycles or behind them.
-/

namespace ExchangePipeline

/-- A sorting under way. -/
structure Sorting where
  /-- For each node, the number of edges into it from nodes that are not placed. -/
  degrees : List (Nat × Nat)
  /-- The nodes that could be placed next, in increasing order. -/
  ready : List Nat
  /-- The nodes placed so far, in their order. -/
  placed : List Nat
deriving DecidableEq, Repr

namespace Sorting

/-- The edges between listed nodes. -/
def edgesWithin (nodes : List Nat) (edges : List (Nat × Nat)) : List (Nat × Nat) :=
  edges.filter fun edge => nodes.contains edge.1 && nodes.contains edge.2

/-- Puts a node into its place in an increasing list. -/
def insertOrdered (n : Nat) : List Nat → List Nat
  | [] => [n]
  | m :: rest => if n ≤ m then n :: m :: rest else m :: insertOrdered n rest

/-- Nothing placed: a node without an edge into it is ready. -/
def start (nodes : List Nat) (edges : List (Nat × Nat)) : Sorting :=
  let degrees := nodes.map fun n => (n, edges.countP fun edge => edge.2 = n)
  { degrees
    ready := ((degrees.filter fun d => d.2 = 0).map (·.1)).foldr insertOrdered []
    placed := [] }

/-- The number of unplaced predecessors of a node. -/
def degree? (s : Sorting) (n : Nat) : Option Nat :=
  s.degrees.lookup n

/-- Takes one predecessor off the count of a node, which becomes ready at zero. -/
def release (s : Sorting) (n : Nat) : Sorting :=
  match s.degree? n with
  | none => s
  | some d =>
    { s with
      degrees := s.degrees.map fun entry => if entry.1 = n then (n, d - 1) else entry
      ready := if d - 1 = 0 then insertOrdered n s.ready else s.ready }

/-- The nodes to which an edge leads from `n`. -/
def successors (edges : List (Nat × Nat)) (n : Nat) : List Nat :=
  (edges.filter fun edge => edge.1 = n).map (·.2)

/-- Places the smallest ready node, if there is one. -/
def step? (edges : List (Nat × Nat)) (s : Sorting) : Option Sorting :=
  match s.ready with
  | [] => none
  | n :: rest =>
    some ((successors edges n).foldl release { s with ready := rest, placed := s.placed ++ [n] })

/-- Places nodes until none is ready, at most `fuel` of them. -/
def run (edges : List (Nat × Nat)) : Nat → Sorting → Sorting
  | 0, s => s
  | fuel + 1, s =>
    match s.step? edges with
    | none => s
    | some s => run edges fuel s

end Sorting

/-- The listed nodes in an order that respects the edges between them, the smaller of two possible
    ones first; or the nodes that cannot be placed, in the order in which they are listed. -/
def topologicalOrder (nodes : List Nat) (edges : List (Nat × Nat)) : Except (List Nat) (List Nat) :=
  let within := Sorting.edgesWithin nodes edges
  let final := Sorting.run within nodes.length (Sorting.start nodes within)
  if final.placed.length = nodes.length then .ok final.placed
  else .error (nodes.filter fun n => !final.placed.contains n)

end ExchangePipeline
