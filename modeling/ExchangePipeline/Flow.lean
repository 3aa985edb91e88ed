/-
  ExchangePipeline/Flow.lean
  ==========================
  **The four flows of an exchange, and the phases declared for each.**
-/

namespace ExchangePipeline

/-- The direction in which a message travels through the pipeline. -/
inductive Flow where
  | inbound
  | outbound
  | inFault
  | outFault
deriving DecidableEq, Repr

namespace Flow

/-- Every flow, in order. -/
def all : List Flow := [.inbound, .outbound, .inFault, .outFault]

/-- The position of a flow among all of them. -/
def rank : Flow → Nat
  | .inbound => 0
  | .outbound => 1
  | .inFault => 2
  | .outFault => 3

/-- The flow that an exchange diverts to when a handler faults. -/
def faultFlow : Flow → Flow
  | .inbound | .inFault => .inFault
  | .outbound | .outFault => .outFault

/-- Whether this is a fault flow, where a further fault is final. -/
def isFault : Flow → Bool
  | .inbound | .outbound => false
  | .inFault | .outFault => true

/-- The flow as it stands in messages. -/
def label : Flow → String
  | .inbound => "in"
  | .outbound => "out"
  | .inFault => "in-fault"
  | .outFault => "out-fault"

/-- The flow as it stands in encoded values. -/
def name : Flow → String
  | .inbound => "In"
  | .outbound => "Out"
  | .inFault => "InFault"
  | .outFault => "OutFault"

/-- The flow of a name. -/
def ofName? (s : String) : Option Flow :=
  all.find? fun flow => flow.name = s

theorem isFault_faultFlow (flow : Flow) : flow.faultFlow.isFault = true := by
  cases flow <;> rfl

theorem mem_all (flow : Flow) : flow ∈ all := by
  cases flow <;> decide

end Flow

/-- The declared phase names, in order, of every flow. -/
structure PhaseOrder where
  inbound : List String
  outbound : List String
  inFault : List String
  outFault : List String
deriving DecidableEq, Repr

namespace PhaseOrder

/-- No phase for any flow. -/
def empty : PhaseOrder := ⟨[], [], [], []⟩

/-- The same phases for every flow. -/
def uniform (phases : List String) : PhaseOrder := ⟨phases, phases, phases, phases⟩

/-- The usual phases of request and response exchanges. -/
def standard : PhaseOrder where
  inbound := ["Transport", "Security", "PreDispatch", "Dispatch", "OperationIn"]
  outbound := ["OperationOut", "PolicyDetermination", "MessageOut", "Security"]
  inFault := ["Transport", "Security", "PreDispatch", "Dispatch", "OperationInFault"]
  outFault := ["OperationOutFault", "PolicyDetermination", "MessageOut", "Security"]

/-- The phases declared for a flow. -/
def phases (order : PhaseOrder) : Flow → List String
  | .inbound => order.inbound
  | .outbound => order.outbound
  | .inFault => order.inFault
  | .outFault => order.outFault

/-- Declares the phases of one flow anew. -/
def setPhases (order : PhaseOrder) (flow : Flow) (names : List String) : PhaseOrder :=
  match flow with
  | .inbound => { order with inbound := names }
  | .outbound => { order with outbound := names }
  | .inFault => { order with inFault := names }
  | .outFault => { order with outFault := names }

/-- Whether a phase is declared for a flow. -/
def declares (order : PhaseOrder) (flow : Flow) (phase : String) : Bool :=
  (order.phases flow).contains phase

@[simp] theorem phases_setPhases (order : PhaseOrder) (flow other : Flow) (names : List String) :
    (order.setPhases flow names).phases other =
      if other = flow then names else order.phases other := by
  cases flow <;> cases other <;> rfl

end PhaseOrder

end ExchangePipeline
