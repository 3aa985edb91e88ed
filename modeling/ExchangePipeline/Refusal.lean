/-
  ExchangePipeline/Refusal.lean
  =============================
  **Why requests are refused.**

  A deployment step fails because of the configuration or because the setup of a
  module failed; a dispatch fails because no permit is free or because the walk
  failed.  A refusal is any of these, or says that a name stands for nothing.
-/
import ExchangePipeline.ExecutionError

namespace ExchangePipeline

/-- Why a deployment step fails. -/
inductive DeploymentError where
  | config (error : ConfigError)
  /-- The setup of a module failed. -/
  | moduleInit (module : String) (cause : Cause)
deriving DecidableEq, Repr

/-- The text of a deployment error. -/
def DeploymentError.message : DeploymentError → String
  | .config error => error.message
  | .moduleInit module cause => "module '" ++ module ++ "' failed to initialize: " ++ cause.text

/-- Why a dispatch gives the exchange back without a status. -/
inductive DispatchError where
  | overloaded
  | failed (error : ExecutionError)
deriving DecidableEq, Repr

/-- The text of a dispatch error; `label` names exchanges. -/
def DispatchError.message (label : Nat → String) : DispatchError → String
  | .overloaded => "engine overloaded, try again later"
  | .failed error => "exchange failed: " ++ error.message label

/-- Why a request is refused. -/
inductive Refusal where
  | config (error : ConfigError)
  | moduleInit (module : String) (cause : Cause)
  | execution (error : ExecutionError)
  | shutdown (cause : Cause)
  /-- No exchange has this name, or the one that has it is under way. -/
  | noExchange
  /-- No chain is held under this name. -/
  | noChain
  | noTransport
deriving DecidableEq, Repr

/-- A deployment error as a refusal. -/
def DeploymentError.refusal : DeploymentError → Refusal
  | .config error => .config error
  | .moduleInit module cause => .moduleInit module cause

/-- The deployment error behind a refusal, if it is one. -/
def Refusal.deploymentError? : Refusal → Option DeploymentError
  | .config error => some (.config error)
  | .moduleInit module cause => some (.moduleInit module cause)
  | _ => none

end ExchangePipeline
