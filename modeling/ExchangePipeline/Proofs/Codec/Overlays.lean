/-
  ExchangePipeline/Proofs/Codec/Overlays.lean
  ===========================================
  **Settings that are given in part.**

  What becomes of the fields that an object does not give is up to the format.  Engine
  settings and log settings keep their defaults, also log settings inside engine
  settings; the flows that a phase order does not give have no phases
  (`EngineSettings.partial_object_overlays`).
-/
import ExchangePipeline.Codec.Records
import ExchangePipeline.Proofs.Codec.Slots
import ExchangePipeline.Proofs.Json.Texts

namespace ExchangePipeline

variable {manner : Manner} {depth : Nat} {fields : List (String × Json)}

/-! ### Log settings -/

namespace LogSettings

variable {d : Draft}

/-- The log settings with what a draft holds, and defaults for the rest. -/
def Draft.over (d : Draft) (defaults : LogSettings) : LogSettings where
  filter := d.filter.getD defaults.filter
  format := d.format.getD defaults.format

/-- A draft holds what an object gives, field by field. -/
structure Draft.GivenBy (d : Draft) (manner : Manner) (depth : Nat)
    (fields : List (String × Json)) : Prop where
  filter : Gives Decoder.string manner depth "filter" fields d.filter
  format : Gives LogFormat.decode manner depth "format" fields d.format

/-- The slots of log settings. -/
def slots : List (Slot Draft) := [
  ⟨String, "filter", Decoder.string, Draft.filter, fun d x => { d with filter := some x }⟩,
  ⟨LogFormat, "format", LogFormat.decode, Draft.format, fun d x => { d with format := some x }⟩]

theorem readsInto : recordFormat.ReadsInto slots where
  names := rfl
  distinct := by decide
  read := by simp [slots, recordFormat]
  blank := by simp [slots, recordFormat]
  get_fill := by simp [slots]
  get_fill_of_ne := by simp [slots]
  ext := by
    rintro ⟨⟩ ⟨⟩ h
    simp_all [slots]

theorem shallow_decode : Decoder.Shallow 2 decode := by
  apply RecordFormat.shallow_decode
  intro key p
  dsimp only [recordFormat]
  split
  · exact (shallow_readOnce Decoder.shallow_string _ _ _).mono (Nat.zero_le 1)
  · exact shallow_readOnce (Decoder.shallow_unit _) _ _ _

theorem Draft.GivenBy.of_le (h : d.GivenBy manner depth fields) (hdepth : 1 ≤ depth) {depth' : Nat}
    (hdepth' : 1 ≤ depth') : d.GivenBy manner depth' fields where
  filter := h.filter.of_shallow Decoder.shallow_string (Nat.zero_le _) (Nat.zero_le _)
  format := h.format.of_shallow (Decoder.shallow_unit _) hdepth hdepth'

theorem exists_givenBy (h : Fitting slots manner depth fields) :
    ∃ d : Draft, d.GivenBy manner depth fields := by
  simp only [Fitting, slots, List.forall_mem_cons] at h
  obtain ⟨filter, hfilter⟩ := exists_gives h.1.1 h.1.2
  obtain ⟨format, hformat⟩ := exists_gives h.2.1.1 h.2.1.2
  exact ⟨⟨filter, format⟩, hfilter, hformat⟩

/-- Log settings keep the defaults of what is not given. -/
theorem decode_record (h : d.GivenBy manner depth fields)
    (hintact : (Json.record fields).intact = true) :
    decode manner (depth + 1) (Json.record fields) = .ok (d.over {}) := by
  apply readsInto.decode_record _ hintact
  simpa [slots] using And.intro h.filter h.format

end LogSettings

/-! ### Phase orders -/

namespace PhaseOrder

variable {d : Draft}

/-- The phase order with what a draft holds, and another one for the rest. -/
def Draft.over (d : Draft) (rest : PhaseOrder) : PhaseOrder where
  inbound := d.inbound.getD rest.inbound
  outbound := d.outbound.getD rest.outbound
  inFault := d.inFault.getD rest.inFault
  outFault := d.outFault.getD rest.outFault

/-- A draft holds what an object gives, flow by flow. -/
structure Draft.GivenBy (d : Draft) (manner : Manner) (depth : Nat)
    (fields : List (String × Json)) : Prop where
  inbound : Gives (Decoder.list Decoder.string) manner depth "in_flow" fields d.inbound
  outbound : Gives (Decoder.list Decoder.string) manner depth "out_flow" fields d.outbound
  inFault : Gives (Decoder.list Decoder.string) manner depth "in_fault_flow" fields d.inFault
  outFault : Gives (Decoder.list Decoder.string) manner depth "out_fault_flow" fields d.outFault

/-- The slots of a phase order. -/
def slots : List (Slot Draft) :=
  let names := Decoder.list Decoder.string
  [⟨List String, "in_flow", names, Draft.inbound, fun d x => { d with inbound := some x }⟩,
    ⟨List String, "out_flow", names, Draft.outbound, fun d x => { d with outbound := some x }⟩,
    ⟨List String, "in_fault_flow", names, Draft.inFault, fun d x => { d with inFault := some x }⟩,
    ⟨List String, "out_fault_flow", names, Draft.outFault, fun d x => { d with outFault := some x }⟩]

theorem readsInto : recordFormat.ReadsInto slots where
  names := rfl
  distinct := by decide
  read := by simp [slots, recordFormat]
  blank := by simp [slots, recordFormat]
  get_fill := by simp [slots]
  get_fill_of_ne := by simp [slots]
  ext := by
    rintro ⟨⟩ ⟨⟩ h
    simp_all [slots]

theorem shallow_decode : Decoder.Shallow 2 decode := by
  apply RecordFormat.shallow_decode
  intro key p
  dsimp only [recordFormat]
  split <;> exact shallow_readOnce Decoder.shallow_names _ _ _

theorem Draft.GivenBy.of_le (h : d.GivenBy manner depth fields) (hdepth : 1 ≤ depth) {depth' : Nat}
    (hdepth' : 1 ≤ depth') : d.GivenBy manner depth' fields where
  inbound := h.inbound.of_shallow Decoder.shallow_names hdepth hdepth'
  outbound := h.outbound.of_shallow Decoder.shallow_names hdepth hdepth'
  inFault := h.inFault.of_shallow Decoder.shallow_names hdepth hdepth'
  outFault := h.outFault.of_shallow Decoder.shallow_names hdepth hdepth'

theorem exists_givenBy (h : Fitting slots manner depth fields) :
    ∃ d : Draft, d.GivenBy manner depth fields := by
  simp only [Fitting, slots, List.forall_mem_cons] at h
  obtain ⟨inbound, hinbound⟩ := exists_gives h.1.1 h.1.2
  obtain ⟨outbound, houtbound⟩ := exists_gives h.2.1.1 h.2.1.2
  obtain ⟨inFault, hinFault⟩ := exists_gives h.2.2.1.1 h.2.2.1.2
  obtain ⟨outFault, houtFault⟩ := exists_gives h.2.2.2.1.1 h.2.2.2.1.2
  exact ⟨⟨inbound, outbound, inFault, outFault⟩, hinbound, houtbound, hinFault, houtFault⟩

/-- A phase order has no phases for the flows that are not given. -/
theorem decode_record (h : d.GivenBy manner depth fields)
    (hintact : (Json.record fields).intact = true) :
    decode manner (depth + 1) (Json.record fields) = .ok (d.over (.uniform [])) := by
  apply readsInto.decode_record _ hintact
  simpa [slots] using And.intro h.inbound ⟨h.outbound, h.inFault, h.outFault⟩

end PhaseOrder

/-! ### Engine settings -/

namespace EngineSettings

variable {d : Draft}

/-- The engine settings with what a draft holds, and defaults for the rest. -/
def Draft.over (d : Draft) (defaults : EngineSettings) : EngineSettings where
  nodeId := d.nodeId.getD defaults.nodeId
  maxConcurrentExchanges := d.maxConcurrentExchanges.getD defaults.maxConcurrentExchanges
  phaseOrder := d.phaseOrder.getD defaults.phaseOrder
  log := d.log.getD defaults.log

/-- A draft holds what an object gives, field by field. -/
structure Draft.GivenBy (d : Draft) (manner : Manner) (depth : Nat)
    (fields : List (String × Json)) : Prop where
  nodeId : Gives Decoder.string manner depth "node_id" fields d.nodeId
  maxConcurrentExchanges :
    Gives decodeLimit manner depth "max_concurrent_exchanges" fields d.maxConcurrentExchanges
  phaseOrder : Gives PhaseOrder.decode manner depth "phase_order" fields d.phaseOrder
  log : Gives LogSettings.decode manner depth "log" fields d.log

/-- The slots of engine settings. -/
def slots : List (Slot Draft) := [
  ⟨String, "node_id", Decoder.string, Draft.nodeId, fun d x => { d with nodeId := some x }⟩,
  ⟨UInt32, "max_concurrent_exchanges", decodeLimit, Draft.maxConcurrentExchanges, fun d x =>
    { d with maxConcurrentExchanges := some x }⟩,
  ⟨PhaseOrder, "phase_order", PhaseOrder.decode, Draft.phaseOrder, fun d x =>
    { d with phaseOrder := some x }⟩,
  ⟨LogSettings, "log", LogSettings.decode, Draft.log, fun d x => { d with log := some x }⟩]

theorem readsInto : recordFormat.ReadsInto slots where
  names := rfl
  distinct := by decide
  read := by simp [slots, recordFormat]
  blank := by simp [slots, recordFormat]
  get_fill := by simp [slots]
  get_fill_of_ne := by simp [slots]
  ext := by
    rintro ⟨⟩ ⟨⟩ h
    simp_all [slots]

theorem shallow_decodeLimit : Decoder.Shallow 0 decodeLimit := by
  intro manner depth j _
  rcases j with - | - | (- | - | -) | - | - | - | -
  all_goals rfl

theorem Draft.GivenBy.of_le (h : d.GivenBy manner depth fields) (hdepth : 2 ≤ depth) {depth' : Nat}
    (hdepth' : 2 ≤ depth') : d.GivenBy manner depth' fields where
  nodeId := h.nodeId.of_shallow Decoder.shallow_string (Nat.zero_le _) (Nat.zero_le _)
  maxConcurrentExchanges := h.maxConcurrentExchanges.of_shallow shallow_decodeLimit
    (Nat.zero_le _) (Nat.zero_le _)
  phaseOrder := h.phaseOrder.of_shallow PhaseOrder.shallow_decode hdepth hdepth'
  log := h.log.of_shallow LogSettings.shallow_decode hdepth hdepth'

theorem exists_givenBy (h : Fitting slots manner depth fields) :
    ∃ d : Draft, d.GivenBy manner depth fields := by
  simp only [Fitting, slots, List.forall_mem_cons] at h
  obtain ⟨nodeId, hnodeId⟩ := exists_gives h.1.1 h.1.2
  obtain ⟨limit, hlimit⟩ := exists_gives h.2.1.1 h.2.1.2
  obtain ⟨phaseOrder, hphaseOrder⟩ := exists_gives h.2.2.1.1 h.2.2.1.2
  obtain ⟨log, hlog⟩ := exists_gives h.2.2.2.1.1 h.2.2.2.1.2
  exact ⟨⟨nodeId, limit, phaseOrder, log⟩, hnodeId, hlimit, hphaseOrder, hlog⟩

/-- Engine settings keep the defaults of what is not given. -/
theorem decode_record (h : d.GivenBy manner depth fields)
    (hintact : (Json.record fields).intact = true) :
    decode manner (depth + 1) (Json.record fields) = .ok (d.over {}) := by
  apply readsInto.decode_record _ hintact
  simpa [slots] using And.intro h.nodeId ⟨h.maxConcurrentExchanges, h.phaseOrder, h.log⟩

/-- What a draft holds of the objects inside: log settings that keep their defaults, and a phase
    order that has no phases for the flows that are not given. -/
structure Draft.Nests (d : Draft) (manner : Manner) (fields : List (String × Json)) : Prop where
  log : ∀ inner, ("log", Json.record inner) ∈ fields →
    Fitting LogSettings.slots manner nestingLimit inner →
    ∃ l : LogSettings.Draft, l.GivenBy manner nestingLimit inner ∧ d.log = some (l.over {})
  phaseOrder : ∀ inner, ("phase_order", Json.record inner) ∈ fields →
    Fitting PhaseOrder.slots manner nestingLimit inner →
    ∃ o : PhaseOrder.Draft, o.GivenBy manner nestingLimit inner ∧
      d.phaseOrder = some (o.over (.uniform []))

theorem Draft.GivenBy.nests (h : d.GivenBy manner nestingLimit fields)
    (hintact : ∀ field ∈ fields, field.2.intact = true) : d.Nests manner fields where
  log := by
    intro inner hmem hfitting
    obtain ⟨l, hl⟩ := LogSettings.exists_givenBy hfitting
    obtain ⟨log, hlog, hdecodes⟩ := h.log.of_mem hmem
    have hinner : LogSettings.decode manner nestingLimit (Json.record inner) = .ok (l.over {}) :=
      LogSettings.decode_record (hl.of_le (by decide) (by decide)) (hintact _ hmem)
    rw [hinner] at hdecodes
    cases hdecodes
    exact ⟨l, hl, hlog⟩
  phaseOrder := by
    intro inner hmem hfitting
    obtain ⟨o, ho⟩ := PhaseOrder.exists_givenBy hfitting
    obtain ⟨order, horder, hdecodes⟩ := h.phaseOrder.of_mem hmem
    have hinner : PhaseOrder.decode manner nestingLimit (Json.record inner) =
        .ok (o.over (.uniform [])) :=
      PhaseOrder.decode_record (ho.of_le (by decide) (by decide)) (hintact _ hmem)
    rw [hinner] at hdecodes
    cases hdecodes
    exact ⟨o, ho, horder⟩

theorem Draft.GivenBy.ofList (h : d.GivenBy manner depth fields) :
    d.GivenBy manner depth (Dict.ofList fields) :=
  ⟨h.nodeId.ofList, h.maxConcurrentExchanges.ofList, h.phaseOrder.ofList, h.log.ofList⟩

/-- **Settings that are given in part overlay the defaults.**  Let an object give each known field
    once at most, with a value that decodes by itself, in any order and among any unknown fields.
    Its text, and its tree, are decoded to the defaults with exactly the given fields replaced; so
    are the log settings inside, whereas a phase order inside has no phases but the given ones. -/
theorem partial_object_overlays (fields : List (String × Json)) :
    (∀ s, Json.read s = (Json.record fields, true) → Fitting slots .streamed nestingLimit fields →
      ∃ d : Draft, d.GivenBy .streamed nestingLimit fields ∧ d.Nests .streamed fields ∧
        Json.decodeText decode s = .ok (d.over {})) ∧
    let tidied := fields.map fun field => (field.1, field.2.tidy)
    (Json.record fields).intact = true → Fitting slots .whole nestingLimit tidied →
      ∃ d : Draft, d.GivenBy .whole nestingLimit tidied ∧ d.Nests .whole tidied ∧
        Json.decodeTree decode (Json.record fields) = .ok (d.over {}) := by
  constructor
  · intro s hs hfitting
    have hintact := Json.intact_of_read hs
    obtain ⟨d, hd⟩ := exists_givenBy hfitting
    refine ⟨d, hd, hd.nests (Json.intact_record.1 hintact), ?_⟩
    have hdecodes : decode .streamed nestingLimit (Json.record fields) = .ok (d.over {}) :=
      decode_record (hd.of_le (by decide) (by decide)) hintact
    simp [Json.decodeText, hs, hdecodes]
  · intro tidied hintact hfitting
    have htidied : ∀ field ∈ tidied, field.2.intact = true := by
      intro field hfield
      obtain ⟨original, horiginal, rfl⟩ := List.mem_map.1 hfield
      exact Json.intact_tidy _ (Json.intact_record.1 hintact original horiginal)
    obtain ⟨d, hd⟩ := exists_givenBy hfitting
    refine ⟨d, hd, hd.nests htidied, ?_⟩
    have hsorted : (Json.record (Dict.ofList tidied)).intact = true :=
      Json.intact_record.2 fun field hfield => htidied field (Dict.mem_of_mem_ofList hfield)
    rw [Json.decodeTree, Json.tidy_record]
    exact decode_record (hd.ofList.of_le (by decide) (by decide)) hsorted

/-- Some of the fields, not in their order, among unknown ones on both levels. -/
def edgeFields : List (String × Json) := [
  ("zone", .list [.bool true, .record [("log", .null)]]),
  ("phase_order", .record [("note", Json.text "draft"), ("in_flow", encodeNames ["A", "B"])]),
  ("log", .record [("format", Json.text "json"), ("color", .bool true)]),
  ("zone", .null),
  ("node_id", Json.text "edge")]

/-- The settings that these fields stand for. -/
def edgeSettings : EngineSettings where
  nodeId := "edge"
  phaseOrder := { inbound := ["A", "B"], outbound := [], inFault := [], outFault := [] }
  log := { format := .json }

/-- What is given replaces the defaults, in the text and in the tree. -/
theorem partial_object_overlays_edge :
    ∃ d e : Draft,
      d.GivenBy .streamed nestingLimit edgeFields ∧ d.Nests .streamed edgeFields ∧
      Json.decodeText decode (Json.record edgeFields).print = .ok (d.over {}) ∧
      Json.decodeTree decode (Json.record edgeFields) = .ok (e.over {}) ∧
      d.over {} = edgeSettings ∧ e.over {} = edgeSettings := by
  have hread : Json.read (Json.record edgeFields).print = (Json.record edgeFields, true) := by
    apply Json.read_print
    simp [edgeFields, Json.record, Json.list, Json.text, encodeNames, Json.Printable,
      Json.FieldsPrintable, Json.AllPrintable]
  obtain ⟨d, hd, hnests, htext⟩ := (partial_object_overlays edgeFields).1 _ hread (by decide +kernel)
  obtain ⟨e, -, -, htree⟩ := (partial_object_overlays edgeFields).2 rfl (by decide +kernel)
  have htextual : Json.decodeText decode (Json.record edgeFields).print = .ok edgeSettings := by
    decide +kernel
  have hwhole : Json.decodeTree decode (Json.record edgeFields) = .ok edgeSettings := by
    decide +kernel
  refine ⟨d, e, hd, hnests, htext, htree, ?_, ?_⟩
  · exact Except.ok.inj (htext.symm.trans htextual)
  · exact Except.ok.inj (htree.symm.trans hwhole)

end EngineSettings

end ExchangePipeline
