/-
  ExchangePipeline/Fault.lean
  ===========================
  **Failures of handlers and of the code behind modules and transports.**
-/
import ExchangePipeline.Value

namespace ExchangePipeline

/-- An error of outside code.  A context, if there is one, is said in place of the message. -/
structure Cause where
  message : String
  context : Option String := none
deriving DecidableEq, Repr

/-- The text of an error of outside code. -/
def Cause.text (cause : Cause) : String :=
  cause.context.getD cause.message

/-- How outside code ended: well, or with an error. -/
abbrev Verdict := Except Cause Unit

/-- Why a handler did not process a message. -/
inductive Fault where
  | rejected (reason : String)
  | internal (cause : Cause)
deriving DecidableEq, Repr

/-- The text of a fault. -/
def Fault.text : Fault → String
  | .rejected reason => reason
  | .internal cause => "internal error: " ++ cause.text

/-- What a handler asks for when it is done. -/
inductive Response where
  | proceed
  | pause
deriving DecidableEq, Repr

/-- How an invocation of a handler ended. -/
abbrev Outcome := Except Fault Response

end ExchangePipeline
