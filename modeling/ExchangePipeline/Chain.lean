/-
  ExchangePipeline/Chain.lean
  ===========================
  **Chains**: the handlers of one flow in the order in which they run, grouped by
  phase.
-/
import ExchangePipeline.Flow
import ExchangePipeline.Placement

namespace ExchangePipeline

/-- A named group of handlers, in order. -/
structure Phase (β : Type) where
  name : String
  links : List (Link β)
deriving DecidableEq

/-- The handlers of one flow, phase by phase. -/
structure Chain (β : Type) where
  flow : Flow
  phases : List (Phase β)
deriving DecidableEq

namespace Phase

variable {β : Type}

/-- The names of the handlers, in order. -/
def handlerNames (phase : Phase β) : List String :=
  phase.links.map Link.name

end Phase

namespace Chain

variable {β : Type}

/-- All handlers, in the order in which they run. -/
def links (chain : Chain β) : List (Link β) :=
  chain.phases.flatMap Phase.links

/-- The number of handlers. -/
def length (chain : Chain β) : Nat :=
  chain.links.length

/-- The handler at a position. -/
def get? (chain : Chain β) (position : Nat) : Option (Link β) :=
  chain.links[position]?

/-- The names of the handlers, in order. -/
def handlerNames (chain : Chain β) : List String :=
  chain.links.map Link.name

end Chain

end ExchangePipeline
