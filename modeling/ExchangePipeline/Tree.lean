/-
  ExchangePipeline/Tree.lean
  ==========================
  **The configuration tree.**

  Nodes are numbered in order of creation; node 0 is the root, and every other
  node knows the number of its parent.  A parameter is looked up from a node
  towards the root, and the nearest definition counts.  A locked parameter cannot
  be redefined on its own node or below it; other parts of the tree are free.

  Beside the nodes stands an index that finds a child by its parent, kind and
  name, which together belong to one node at most.
-/
import ExchangePipeline.ConfigError
import ExchangePipeline.Parameter

namespace ExchangePipeline

/-- The number of a node. -/
abbrev NodeId := Nat

/-- The root of every tree. -/
def rootId : NodeId := 0

/-- What a node describes. -/
inductive NodeKind where
  | root
  | module
  | service
  | operation
  | transport
deriving DecidableEq, Repr

/-- The kind as it stands in paths. -/
def NodeKind.label : NodeKind → String
  | .root => "global"
  | .module => "module"
  | .service => "service"
  | .operation => "operation"
  | .transport => "transport"

/-- One entity of the configuration. -/
structure Node where
  kind : NodeKind
  name : String
  parent : Option NodeId
  /-- The parameters defined on this node, by name. -/
  parameters : Dict Parameter
  /-- The modules engaged here, in the order of their engagement. -/
  engaged : List String

/-- What tells the children of all nodes apart. -/
structure ChildKey where
  parent : NodeId
  kind : NodeKind
  name : String
deriving DecidableEq, Repr

/-- The nodes in order of creation, and the index of children. -/
structure Tree where
  nodes : List Node
  children : List (ChildKey × NodeId)

namespace Node

/-- Whether the node itself defines `name` as locked. -/
def locks (node : Node) (name : String) : Bool :=
  match Dict.find? name node.parameters with
  | some parameter => parameter.locked
  | none => false

/-- A node without parameters and engagements. -/
def fresh (kind : NodeKind) (name : String) (parent : Option NodeId) : Node :=
  { kind, name, parent, parameters := [], engaged := [] }

/-- The node as it stands in a path. -/
def segment (node : Node) : String :=
  match node.kind with
  | .root => node.name
  | kind => kind.label ++ ":" ++ node.name

end Node

namespace Tree

/-- The root alone. -/
def empty : Tree where
  nodes := [.fresh .root "global" none]
  children := []

/-- The node of a number. -/
def node? (tree : Tree) (id : NodeId) : Option Node :=
  tree.nodes[id]?

/-! ### Ancestry -/

/-- A node and its ancestors, nearest first, at most `fuel` of them. -/
def upward (tree : Tree) : Nat → NodeId → List NodeId
  | 0, _ => []
  | fuel + 1, id =>
    match tree.node? id with
    | none => []
    | some node =>
      match node.parent with
      | none => [id]
      | some parent => id :: upward tree fuel parent

/-- A node and its ancestors, nearest first; nothing for a number that is no node.  Parents have
    smaller numbers than their children, so there are at most `id + 1` of them. -/
def ancestry (tree : Tree) (id : NodeId) : List NodeId :=
  tree.upward (id + 1) id

/-- The place of a node, written from the root downwards. -/
def path (tree : Tree) (id : NodeId) : String :=
  "/".intercalate ((tree.ancestry id).reverse.filterMap fun i => (tree.node? i).map Node.segment)

/-! ### Children -/

/-- The child of a parent with a kind and a name. -/
def child? (tree : Tree) (parent : NodeId) (kind : NodeKind) (name : String) : Option NodeId :=
  tree.children.lookup { parent, kind, name }

/-- The names of the children of one kind, in order of creation. -/
def childNames (tree : Tree) (parent : NodeId) (kind : NodeKind) : List String :=
  (tree.nodes.filter fun node => node.parent = some parent && node.kind = kind).map Node.name

/-- Adds a child. -/
def attach (tree : Tree) (parent : NodeId) (kind : NodeKind) (name : String) :
    Except ConfigError (NodeId × Tree) :=
  match tree.child? parent kind name with
  | some _ => .error (.alreadyDeployed (tree.path parent ++ "/" ++ kind.label ++ ":" ++ name))
  | none =>
    let id := tree.nodes.length
    .ok (id, {
      nodes := tree.nodes ++ [.fresh kind name (some parent)]
      children := tree.children ++ [({ parent, kind, name }, id)] })

/-- Adds a module node. -/
def addModule (tree : Tree) (name : String) : Except ConfigError (NodeId × Tree) :=
  tree.attach rootId .module name

/-- Adds a service node. -/
def addService (tree : Tree) (name : String) : Except ConfigError (NodeId × Tree) :=
  tree.attach rootId .service name

/-- Adds a transport node. -/
def addTransport (tree : Tree) (name : String) : Except ConfigError (NodeId × Tree) :=
  tree.attach rootId .transport name

/-- The node of a module. -/
def module? (tree : Tree) (name : String) : Option NodeId := tree.child? rootId .module name

/-- The node of a service. -/
def service? (tree : Tree) (name : String) : Option NodeId := tree.child? rootId .service name

/-- The node of a transport. -/
def transport? (tree : Tree) (name : String) : Option NodeId := tree.child? rootId .transport name

/-- The node of an operation of a service. -/
def operation? (tree : Tree) (service name : String) : Option NodeId :=
  (tree.service? service).bind fun parent => tree.child? parent .operation name

/-- Adds an operation node under a service. -/
def addOperation (tree : Tree) (service name : String) : Except ConfigError (NodeId × Tree) :=
  match tree.service? service with
  | none => .error (.unknownService service)
  | some parent => tree.attach parent .operation name

/-- The names of all services, in order of creation. -/
def services (tree : Tree) : List String := tree.childNames rootId .service

/-- The names of the operations of a service, in order of creation. -/
def operations (tree : Tree) (service : String) : List String :=
  match tree.service? service with
  | some id => tree.childNames id .operation
  | none => []

/-! ### Parameters -/

/-- What a node defines under a name. -/
def ownParameter? (tree : Tree) (id : NodeId) (name : String) : Option Parameter :=
  (tree.node? id).bind fun node => Dict.find? name node.parameters

/-- The nearest definition of a name, from a node towards the root. -/
def parameter? (tree : Tree) (id : NodeId) (name : String) : Option Parameter :=
  (tree.ancestry id).findSome? fun i => tree.ownParameter? i name

/-- Whether a node itself defines a name as locked. -/
def locksAt (tree : Tree) (name : String) (id : NodeId) : Bool :=
  match tree.node? id with
  | some node => node.locks name
  | none => false

/-- The nearest node, from a node towards the root, that defines a name as locked. -/
def lockingNode? (tree : Tree) (id : NodeId) (name : String) : Option NodeId :=
  (tree.ancestry id).find? (tree.locksAt name)

/-- Whether a node or one of its ancestors defines a name as locked. -/
def isLocked (tree : Tree) (id : NodeId) (name : String) : Bool :=
  (tree.lockingNode? id name).isSome

/-- Changes one node. -/
def updateNode (tree : Tree) (id : NodeId) (f : Node → Node) : Tree :=
  { tree with nodes := tree.nodes.modify id f }

/-- Changing a node changes no other one. -/
theorem node?_updateNode (tree : Tree) (id other : NodeId) (f : Node → Node) :
    (tree.updateNode id f).node? other =
      if other = id then (tree.node? id).map f else tree.node? other := by
  by_cases h : other = id
  · subst h
    simp [updateNode, node?]
  · simp [updateNode, node?, h, Ne.symm h]

/-- Defines a parameter on a node, unless its name is locked there. -/
def addParameter (tree : Tree) (id : NodeId) (parameter : Parameter) : Except ConfigError Tree :=
  match tree.node? id with
  | none => .error (.unknownNode id)
  | some _ =>
    match tree.lockingNode? id parameter.name with
    | some owner =>
      .error (.lockedParameter parameter.name (tree.path id) (tree.path owner))
    | none =>
      .ok (tree.updateNode id fun node =>
        { node with parameters := Dict.insert parameter.name parameter node.parameters })

/-! ### Engagements -/

/-- Engages a module at a node; `false` if it is engaged there already. -/
def engage (tree : Tree) (id : NodeId) (module : String) : Except ConfigError (Bool × Tree) :=
  match tree.node? id with
  | none => .error (.unknownNode id)
  | some node =>
    if module ∈ node.engaged then .ok (false, tree)
    else
      .ok (true, tree.updateNode id fun node =>
        { node with engaged := node.engaged ++ [module] })

/-- Ends the engagement of a module at a node; `false` if it is not engaged there. -/
def disengage (tree : Tree) (id : NodeId) (module : String) : Except ConfigError (Bool × Tree) :=
  match tree.node? id with
  | none => .error (.unknownNode id)
  | some node =>
    let kept := node.engaged.filter fun other => other ≠ module
    .ok (kept.length ≠ node.engaged.length, tree.updateNode id fun node =>
      { node with engaged := node.engaged.filter fun other => other ≠ module })

end Tree

end ExchangePipeline
