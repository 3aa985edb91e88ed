/-
  ExchangePipeline/Scope.lean
  ===========================
  **Scopes**: where an engagement or a handler declaration applies.
-/
import ExchangePipeline.Tree

namespace ExchangePipeline

/-- Everything, one service, or one operation of a service. -/
inductive Scope where
  | everywhere
  | service (name : String)
  | operation (service operation : String)
deriving DecidableEq, Repr

namespace Scope

/-- The text of a scope. -/
def label : Scope → String
  | .everywhere => "global"
  | .service name => "service:" ++ name
  | .operation s o => "service:" ++ s ++ "/operation:" ++ o

/-- Whether an operation of a service lies in the scope. -/
def covers (scope : Scope) (inService inOperation : String) : Bool :=
  match scope with
  | .everywhere => true
  | .service name => inService = name
  | .operation s o => inService = s && inOperation = o

end Scope

namespace Tree

/-- The node of a scope. -/
def scopeNode (tree : Tree) : Scope → Except ConfigError NodeId
  | .everywhere => .ok rootId
  | .service name =>
    match tree.service? name with
    | some id => .ok id
    | none => .error (.unknownService name)
  | .operation service operation =>
    match tree.service? service with
    | none => .error (.unknownService service)
    | some parent =>
      match tree.child? parent .operation operation with
      | some id => .ok id
      | none => .error (.unknownOperation service operation)

/-- The nodes of a service and of its operations, as far as they are not `node` itself or a service
    that does not exist. -/
def serviceNodes (tree : Tree) (node : NodeId) (service : String) : List NodeId :=
  let own := match tree.service? service with
    | some id => if id = node then [] else [id]
    | none => []
  own ++ (tree.operations service).filterMap (tree.operation? service)

/-- The node of a scope, then the service and operation nodes below it. -/
def nodesBelow (tree : Tree) (scope : Scope) (node : NodeId) : List NodeId :=
  match scope with
  | .everywhere => node :: tree.services.flatMap (tree.serviceNodes node)
  | .service name => node :: tree.serviceNodes node name
  | .operation _ _ => [node]

end Tree

end ExchangePipeline
