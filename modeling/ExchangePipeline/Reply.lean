/-
  ExchangePipeline/Reply.lean
  ===========================
  **Replies to requests**, as plain data.

  A reply holds no handlers, only their names, so that programs can be given
  replies of every kind.
-/
import ExchangePipeline.Metric
import ExchangePipeline.Parameter
import ExchangePipeline.Refusal
import ExchangePipeline.Settings
import ExchangePipeline.View

namespace ExchangePipeline

/-- The reply to a request. -/
inductive Reply where
  /-- It is done. -/
  | done
  /-- It is done, and there is nothing to say about it. -/
  | nothing
  | flag (b : Bool)
  | count (n : Nat)
  | index (n : Option Nat)
  | text (s : String)
  | names (names : List String)
  | value (value : Option Value)
  | payload (content : Option (List UInt8))
  | status (status : Status)
  | view (view : ExchangeView)
  | chain (chain : Option ChainView)
  | order (order : PhaseOrder)
  | parameter (parameter : Option Parameter)
  | settings (settings : EngineSettings)
  /-- The modules in registration order, and whether each is initialized. -/
  | modules (modules : List (String × Bool))
  | module (name : String) (view : ModuleView)
  | endpoint (name : String) (node : Nat)
  | transports (listeners senders : List String)
  | metrics (totals : List (Metric × Nat))
  /-- The result of a dispatch, and the permits free afterwards where they are asked for. -/
  | dispatched (result : Except DispatchError Status) (available : Option Nat)
  | glance (glance : Glance)
  | refused (refusal : Refusal)

/-- What a program has to say about its doings. -/
inductive Note where
  | said (text : String)
  /-- What a reply holds. -/
  | shown (reply : Reply)
  /-- A reply as an answer. -/
  | answered (reply : Reply)
  /-- A reply as an answer, with what is seen after it. -/
  | step (reply : Reply) (after : Glance)

end ExchangePipeline
