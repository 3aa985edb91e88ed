/-
  ExchangePipeline/ExecutionError.lean
  ====================================
  **Why a driving call on an exchange fails.**
-/
import ExchangePipeline.ConfigError
import ExchangePipeline.Exchange

namespace ExchangePipeline

/-- What was asked of an exchange. -/
inductive DrivingCall where
  | run
  | resume
  | cancel
deriving DecidableEq, Repr

/-- The call as it stands in messages. -/
def DrivingCall.label : DrivingCall → String
  | .run => "run"
  | .resume => "resume"
  | .cancel => "cancel"

/-- Why a driving call on the exchange of a number failed. -/
inductive ExecutionError where
  /-- The call is not possible in this state. -/
  | invalidState (exchange : Nat) (state : ExchangeState) (call : DrivingCall)
  /-- A handler faulted in the fault flow. -/
  | unrecoverable (exchange : Nat) (handler : String) (fault : Fault)
  | cancelled (exchange : Nat)
  /-- A chain could not be had. -/
  | resolution (error : ConfigError)
deriving DecidableEq, Repr

/-- The text of an error; `label` names exchanges. -/
def ExecutionError.message (label : Nat → String) : ExecutionError → String
  | .invalidState exchange state call =>
    "cannot " ++ call.label ++ " exchange " ++ label exchange ++ " in state " ++ state.name
  | .unrecoverable exchange handler fault =>
    "unrecoverable fault in handler '" ++ handler
      ++ "' while processing the fault flow of exchange " ++ label exchange ++ ": " ++ fault.text
  | .cancelled exchange => "exchange " ++ label exchange ++ " was cancelled"
  | .resolution error => "chain resolution failed: " ++ error.message

/-- How a walk ended without an error. -/
inductive Status where
  | completed
  | paused
deriving DecidableEq, Repr

/-- The name of a status. -/
def Status.name : Status → String
  | .completed => "Completed"
  | .paused => "Paused"

end ExchangePipeline
