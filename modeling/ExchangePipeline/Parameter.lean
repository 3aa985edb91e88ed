/-
  ExchangePipeline/Parameter.lean
  ===============================
  **Named parameters.**  A locked parameter cannot be redefined where it is visible.
-/
import ExchangePipeline.Value

namespace ExchangePipeline

/-- A configuration entry. -/
structure Parameter where
  name : String
  value : Value
  locked : Bool

end ExchangePipeline
