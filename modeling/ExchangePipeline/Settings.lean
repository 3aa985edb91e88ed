/-
  ExchangePipeline/Settings.lean
  ==============================
  **Settings of an engine**: its name, how many exchanges it walks at once, the
  phase order it starts with, and its logging.
-/
import ExchangePipeline.Flow

namespace ExchangePipeline

/-- The form of log lines. -/
inductive LogFormat where
  | pretty
  | json
deriving DecidableEq, Repr

/-- The logging part of the settings. -/
structure LogSettings where
  filter : String := "info"
  format : LogFormat := .pretty
deriving DecidableEq, Repr

/-- The settings of an engine; each field has a default. -/
structure EngineSettings where
  nodeId : String := ""
  maxConcurrentExchanges : UInt32 := 1000
  phaseOrder : PhaseOrder := .standard
  log : LogSettings := {}
deriving DecidableEq, Repr

end ExchangePipeline
