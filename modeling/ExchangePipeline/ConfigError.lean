/-
  ExchangePipeline/ConfigError.lean
  =================================
  **What can be wrong with a configuration**, and how it is said.
-/
import ExchangePipeline.Flow

namespace ExchangePipeline

/-- Why the handlers of a phase cannot be put in order. -/
inductive Conflict where
  /-- Two handlers claim the first place. -/
  | rivalsForFirst (one other : String)
  /-- Two handlers claim the last place. -/
  | rivalsForLast (one other : String)
  /-- A handler claims both ends of a phase that holds others too. -/
  | bothEnds (name : String)
  /-- A handler has to run before the one that claims the first place. -/
  | beforeFirst (first other : String)
  /-- A handler has to run after the one that claims the last place. -/
  | afterLast (last other : String)
  /-- These handlers wait for each other, or for handlers that do. -/
  | cycle (names : List String)
deriving DecidableEq, Repr

/-- The text of a conflict. -/
def Conflict.detail : Conflict → String
  | .rivalsForFirst one other => "both '" ++ one ++ "' and '" ++ other ++ "' claim phaseFirst"
  | .rivalsForLast one other => "both '" ++ one ++ "' and '" ++ other ++ "' claim phaseLast"
  | .bothEnds name => "'" ++ name ++ "' claims both phaseFirst and phaseLast but shares the phase"
  | .beforeFirst first other =>
    "'" ++ first ++ "' is phaseFirst but '" ++ other ++ "' must run before it"
  | .afterLast last other => "'" ++ last ++ "' is phaseLast but '" ++ other ++ "' must run after it"
  | .cycle names => "cyclic before/after constraints among: " ++ ", ".intercalate names

/-- What a configuration refuses, and because of which name. -/
inductive ConfigError where
  /-- The parameter is locked at, or above, the node where it should be defined. -/
  | lockedParameter (name node lockedBy : String)
  | unknownPhase (phase handler : String) (flow : Flow)
  | phaseConflict (phase : String) (conflict : Conflict)
  | duplicateHandler (phase handler : String)
  | unknownService (name : String)
  | unknownOperation (service operation : String)
  | unknownNode (index : Nat)
  | unknownModule (name : String)
  | alreadyDeployed (name : String)
deriving DecidableEq, Repr

/-- The text of an error. -/
def ConfigError.message : ConfigError → String
  | .lockedParameter name node lockedBy =>
    "parameter '" ++ name ++ "' is locked by '" ++ lockedBy ++ "' and cannot be redefined at '"
      ++ node ++ "'"
  | .unknownPhase phase handler flow =>
    "handler '" ++ handler ++ "' references phase '" ++ phase ++ "' which is not declared for the "
      ++ flow.label ++ " flow"
  | .phaseConflict phase conflict =>
    "conflicting order in phase '" ++ phase ++ "': " ++ conflict.detail
  | .duplicateHandler phase handler =>
    "handler '" ++ handler ++ "' is contributed more than once to phase '" ++ phase ++ "'"
  | .unknownService name => "unknown service: " ++ name
  | .unknownOperation service operation =>
    "unknown operation '" ++ operation ++ "' on service '" ++ service ++ "'"
  | .unknownNode index => "node #" ++ toString index ++ " does not belong to this configuration"
  | .unknownModule name => "unknown module: " ++ name
  | .alreadyDeployed name => "'" ++ name ++ "' is already deployed"

end ExchangePipeline
