/-
  ExchangePipeline/Placement.lean
  ===============================
  **Where a handler stands in a chain**: its phase and its constraints there.
-/
import ExchangePipeline.Dict

namespace ExchangePipeline

/-- The name of a handler, its phase, and what it asks of its place in that phase. -/
structure Placement where
  name : String
  phase : String
  /-- Handlers of the same phase that run later. -/
  before : NameSet := .empty
  /-- Handlers of the same phase that run earlier. -/
  after : NameSet := .empty
  /-- Claims the first place of the phase. -/
  first : Bool := false
  /-- Claims the last place of the phase. -/
  last : Bool := false
deriving DecidableEq

/-- A placed handler: its placement and its body. -/
structure Link (β : Type) where
  placement : Placement
  body : β
deriving DecidableEq

namespace Link

variable {β : Type}

/-- The name of the handler. -/
def name (link : Link β) : String := link.placement.name

/-- The phase of the handler. -/
def phase (link : Link β) : String := link.placement.phase

end Link

end ExchangePipeline
