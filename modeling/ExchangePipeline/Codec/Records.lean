/-
  ExchangePipeline/Codec/Records.lean
  ===================================
  **The encoded forms of parameters, placements, phase orders and settings.**
-/
import ExchangePipeline.Codec.Value
import ExchangePipeline.Flow
import ExchangePipeline.Placement
import ExchangePipeline.Settings

namespace ExchangePipeline

/-- A list of names. -/
def encodeNames (names : List String) : Json :=
  Json.list (names.map Json.text)

/-! ### Parameters -/

/-- A parameter with some of its fields read. -/
structure Parameter.Draft where
  name : Option String := none
  value : Option Value := none
  locked : Option Bool := none

namespace Parameter

/-- The encoded parameter. -/
def encode (p : Parameter) : Json :=
  Json.record [("name", Json.text p.name), ("value", p.value.encode), ("locked", .bool p.locked)]

/-- A parameter is unlocked unless it says otherwise. -/
def recordFormat : RecordFormat Draft Parameter where
  fields := ["name", "value", "locked"]
  blank := {}
  read key d :=
    match key with
    | "name" => readOnce key d.name Decoder.string fun x => { d with name := some x }
    | "value" => readOnce key d.value Value.decode fun x => { d with value := some x }
    | _ => readOnce key d.locked Decoder.bool fun x => { d with locked := some x }
  finish d := do
    let name ← required "name" d.name
    let value ← required "value" d.value
    return { name, value, locked := d.locked.getD false }

/-- A parameter from its encoded form. -/
def decode : Decoder Parameter := recordFormat.decode

end Parameter

/-! ### Placements -/

/-- A placement with some of its fields read. -/
structure Placement.Draft where
  name : Option String := none
  phase : Option String := none
  before : Option NameSet := none
  after : Option NameSet := none
  first : Option Bool := none
  last : Option Bool := none

namespace Placement

/-- The encoded placement. -/
def encode (p : Placement) : Json :=
  Json.record [
    ("name", Json.text p.name), ("phase", Json.text p.phase),
    ("before", encodeNames p.before.toList), ("after", encodeNames p.after.toList),
    ("phase_first", .bool p.first), ("phase_last", .bool p.last)]

/-- Constraints and claims are absent unless given. -/
def recordFormat : RecordFormat Draft Placement where
  fields := ["name", "phase", "before", "after", "phase_first", "phase_last"]
  blank := {}
  read key d :=
    match key with
    | "name" => readOnce key d.name Decoder.string fun x => { d with name := some x }
    | "phase" => readOnce key d.phase Decoder.string fun x => { d with phase := some x }
    | "before" => readOnce key d.before Decoder.nameSet fun x => { d with before := some x }
    | "after" => readOnce key d.after Decoder.nameSet fun x => { d with after := some x }
    | "phase_first" => readOnce key d.first Decoder.bool fun x => { d with first := some x }
    | _ => readOnce key d.last Decoder.bool fun x => { d with last := some x }
  finish d := do
    let name ← required "name" d.name
    let phase ← required "phase" d.phase
    return {
      name, phase
      before := d.before.getD .empty
      after := d.after.getD .empty
      first := d.first.getD false
      last := d.last.getD false }

/-- A placement from its encoded form. -/
def decode : Decoder Placement := recordFormat.decode

end Placement

/-! ### Flows and phase orders -/

/-- The encoded flow. -/
def Flow.encode (flow : Flow) : Json := Json.text flow.name

/-- A flow from its encoded form. -/
def Flow.decode : Decoder Flow := Decoder.unit Flow.ofName?

/-- A phase order with some of its flows read. -/
structure PhaseOrder.Draft where
  inbound : Option (List String) := none
  outbound : Option (List String) := none
  inFault : Option (List String) := none
  outFault : Option (List String) := none

namespace PhaseOrder

/-- The encoded phase order. -/
def encode (order : PhaseOrder) : Json :=
  Json.record [
    ("in_flow", encodeNames order.inbound), ("out_flow", encodeNames order.outbound),
    ("in_fault_flow", encodeNames order.inFault), ("out_fault_flow", encodeNames order.outFault)]

/-- A flow that is not given has no phases. -/
def recordFormat : RecordFormat Draft PhaseOrder where
  fields := ["in_flow", "out_flow", "in_fault_flow", "out_fault_flow"]
  blank := {}
  read key d :=
    let names := Decoder.list Decoder.string
    match key with
    | "in_flow" => readOnce key d.inbound names fun x => { d with inbound := some x }
    | "out_flow" => readOnce key d.outbound names fun x => { d with outbound := some x }
    | "in_fault_flow" => readOnce key d.inFault names fun x => { d with inFault := some x }
    | _ => readOnce key d.outFault names fun x => { d with outFault := some x }
  finish d := .ok {
    inbound := d.inbound.getD []
    outbound := d.outbound.getD []
    inFault := d.inFault.getD []
    outFault := d.outFault.getD [] }

/-- A phase order from its encoded form. -/
def decode : Decoder PhaseOrder := recordFormat.decode

end PhaseOrder

/-! ### Settings -/

namespace LogFormat

/-- The name of a format. -/
def name : LogFormat → String
  | .pretty => "pretty"
  | .json => "json"

/-- The format of a name. -/
def ofName? (s : String) : Option LogFormat :=
  [LogFormat.pretty, LogFormat.json].find? fun format => format.name = s

/-- The encoded format. -/
def encode (format : LogFormat) : Json := Json.text format.name

/-- A format from its encoded form. -/
def decode : Decoder LogFormat := Decoder.unit ofName?

end LogFormat

/-- Log settings with some of their fields read. -/
structure LogSettings.Draft where
  filter : Option String := none
  format : Option LogFormat := none

namespace LogSettings

/-- The encoded log settings. -/
def encode (log : LogSettings) : Json :=
  Json.record [("filter", Json.text log.filter), ("format", log.format.encode)]

/-- Fields that are not given keep their default. -/
def recordFormat : RecordFormat Draft LogSettings where
  fields := ["filter", "format"]
  blank := {}
  read key d :=
    match key with
    | "filter" => readOnce key d.filter Decoder.string fun x => { d with filter := some x }
    | _ => readOnce key d.format LogFormat.decode fun x => { d with format := some x }
  finish d :=
    let defaults : LogSettings := {}
    .ok { filter := d.filter.getD defaults.filter, format := d.format.getD defaults.format }

/-- Log settings from their encoded form. -/
def decode : Decoder LogSettings := recordFormat.decode

end LogSettings

/-- Engine settings with some of their fields read. -/
structure EngineSettings.Draft where
  nodeId : Option String := none
  maxConcurrentExchanges : Option UInt32 := none
  phaseOrder : Option PhaseOrder := none
  log : Option LogSettings := none

namespace EngineSettings

/-- The encoded engine settings. -/
def encode (s : EngineSettings) : Json :=
  Json.record [
    ("node_id", Json.text s.nodeId),
    ("max_concurrent_exchanges", Json.integer s.maxConcurrentExchanges.toNat),
    ("phase_order", s.phaseOrder.encode), ("log", s.log.encode)]

/-- A number of exchanges: a natural number below `2 ^ 32`. -/
def decodeLimit : Decoder UInt32 := fun manner depth j =>
  (Decoder.integer 0 (Int.pow 2 32) manner depth j).map fun i => UInt32.ofNat i.toNat

/-- Fields that are not given keep their default. -/
def recordFormat : RecordFormat Draft EngineSettings where
  fields := ["node_id", "max_concurrent_exchanges", "phase_order", "log"]
  blank := {}
  read key d :=
    match key with
    | "node_id" => readOnce key d.nodeId Decoder.string fun x => { d with nodeId := some x }
    | "max_concurrent_exchanges" =>
      readOnce key d.maxConcurrentExchanges decodeLimit fun x =>
        { d with maxConcurrentExchanges := some x }
    | "phase_order" =>
      readOnce key d.phaseOrder PhaseOrder.decode fun x => { d with phaseOrder := some x }
    | _ => readOnce key d.log LogSettings.decode fun x => { d with log := some x }
  finish d :=
    let defaults : EngineSettings := {}
    .ok {
      nodeId := d.nodeId.getD defaults.nodeId
      maxConcurrentExchanges := d.maxConcurrentExchanges.getD defaults.maxConcurrentExchanges
      phaseOrder := d.phaseOrder.getD defaults.phaseOrder
      log := d.log.getD defaults.log }

/-- Engine settings from their encoded form. -/
def decode : Decoder EngineSettings := recordFormat.decode

end EngineSettings

end ExchangePipeline
