/-
  ExchangePipeline/Metric.lean
  ============================
  **What dispatches are counted as.**

  A dispatch counts once by its outcome and once as a sample of the time it took,
  if it comes so far; one that is turned away counts by what it would have been.
-/

namespace ExchangePipeline

/-- What a dispatch came to. -/
inductive DispatchOutcome where
  | completed
  | faultHandled
  | paused
  | cancelled
  | invalidState
  | overloaded
  | unrecoverable
  | resolutionError
deriving DecidableEq, Repr

/-- Whether a dispatch starts an exchange or goes on with a paused one. -/
inductive Admission where
  | new
  | resume
deriving DecidableEq, Repr

/-- What is counted. -/
inductive Metric where
  | outcome (outcome : DispatchOutcome)
  | shed (admission : Admission)
  /-- One sample of the time that a dispatch took. -/
  | duration
deriving DecidableEq, Repr

/-- Every outcome, in the order of its label. -/
def DispatchOutcome.all : List DispatchOutcome :=
  [ .cancelled, .completed, .faultHandled, .invalidState, .overloaded, .paused, .resolutionError,
    .unrecoverable ]

namespace Metric

/-- Every metric, in the order of its name. -/
def all : List Metric :=
  [.duration, .shed .new, .shed .resume] ++ DispatchOutcome.all.map .outcome

/-- The label of an outcome. -/
def outcomeLabel : DispatchOutcome → String
  | .completed => "completed"
  | .faultHandled => "fault_handled"
  | .paused => "paused"
  | .cancelled => "cancelled"
  | .invalidState => "invalid_state"
  | .overloaded => "overloaded"
  | .unrecoverable => "unrecoverable"
  | .resolutionError => "resolution_error"

/-- The label of an admission. -/
def admissionLabel : Admission → String
  | .new => "new"
  | .resume => "resume"

/-- The name of a metric, with its label. -/
def name : Metric → String
  | .outcome result => "phaseflow_exchanges_total\x7boutcome=" ++ outcomeLabel result ++ "\x7d"
  | .shed admission =>
    "phaseflow_exchanges_shed_total\x7badmission=" ++ admissionLabel admission ++ "\x7d"
  | .duration => "phaseflow_exchange_duration_seconds\x7b\x7d"

/-- The metrics that have been counted, with their totals. -/
def totals (samples : List Metric) : List (Metric × Nat) :=
  (all.map fun metric => (metric, samples.count metric)).filter fun entry => entry.2 ≠ 0

end Metric

end ExchangePipeline
