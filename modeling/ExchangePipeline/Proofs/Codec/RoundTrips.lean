/-
  ExchangePipeline/Proofs/Codec/RoundTrips.lean
  =============================================
  **Values, parameters, placements, phase orders and settings survive their text.**

  A value is decoded by its tag; an array or a map takes two levels, one for the tag
  and one for the content.  The induction follows the values, with their items and
  fields; the fields of a map come in the order of their keys, and each one is put
  behind those that were there.  Records are read field by field, each of them once.
-/
import ExchangePipeline.Proofs.Codec.Encodings

namespace ExchangePipeline

namespace Value

/-! ### Tagged contents -/

theorem nesting_tagged (kind : String) (content : Json) :
    (tagged kind content).nesting = content.nesting + 1 := by
  simp [tagged, Json.record, Json.nesting, Json.fieldsNesting]

theorem printable_tagged {kind : String} {content : Json} (h : content.Printable) :
    (tagged kind content).Printable :=
  ⟨rfl, rfl, h, trivial⟩

theorem alternative_single {read : String → Json → Except DecodeError Value} {kind : String}
    {content : Json} {v : Value} (manner : Manner) (h : read kind content = .ok v) :
    Decoder.alternative read manner [(some kind, content)] true = .ok v := by
  rw [Decoder.alternative, if_neg (by simp), h]
  rfl

/-- A kind with content that holds no other values. -/
theorem encodes_scalar {kind : String} {content : Json} {v : Value}
    (harray : kind ≠ "Array") (hmap : kind ≠ "Map") (hprintable : content.Printable)
    (hcontent : ∀ manner depth, content.nesting ≤ depth →
      decodeScalar kind manner depth content = .ok v) :
    Encodes decode (tagged kind content) v where
  printable := printable_tagged hprintable
  decodes manner depth hdepth := by
    rw [nesting_tagged] at hdepth
    match depth, hdepth with
    | 1, hdepth => exact alternative_single manner (hcontent manner 0 (by omega))
    | depth + 2, hdepth =>
      refine alternative_single manner ?_
      rw [decodeContent]
      · exact hcontent manner (depth + 1) (by omega)
      · rintro _ _ rfl
        exact absurd rfl harray
      · rintro _ _ rfl
        exact absurd rfl hmap

/-- A kind with content that holds other values. -/
theorem encodes_content {kind : String} {content : Json} {v : Value}
    (hprintable : content.Printable) (hnested : 0 < content.nesting)
    (hcontent : ∀ manner depth, content.nesting ≤ depth + 1 →
      decodeContent (decode manner depth) kind manner (depth + 1) content = .ok v) :
    Encodes decode (tagged kind content) v where
  printable := printable_tagged hprintable
  decodes manner depth hdepth := by
    rw [nesting_tagged] at hdepth
    obtain ⟨depth, rfl⟩ : ∃ k, depth = k + 2 := ⟨depth - 2, by omega⟩
    exact alternative_single manner (hcontent manner depth (by omega))

/-! ### Values -/

theorem encodes_null : Encodes decode (encode .null) .null :=
  ⟨rfl, fun _ _ _ => by rw [encode, Json.text, decode, if_pos rfl]⟩

theorem encodes_bool (b : Bool) : Encodes decode (encode (.bool b)) (.bool b) :=
  encodes_scalar (by decide) (by decide) trivial fun _ _ _ => rfl

theorem encodes_int (i : Int64) : Encodes decode (encode (.int i)) (.int i) := by
  have hint : Encodes (Decoder.integer (-Int.pow 2 63) (Int.pow 2 63)) (Json.integer i.toInt)
      i.toInt :=
    .integer i.le_toInt i.toInt_lt (by decide) (by decide)
  refine encodes_scalar (by decide) (by decide) hint.printable fun manner depth hdepth => ?_
  have hread := (hint.map fun i => Value.int (Int64.ofInt i)).decodes manner depth hdepth
  rwa [Int64.ofInt_toInt] at hread

theorem encodes_string (s : String) : Encodes decode (encode (.string s)) (.string s) :=
  encodes_scalar (by decide) (by decide) rfl fun _ _ _ => rfl

theorem encodes_bytes (content : List UInt8) :
    Encodes decode (encode (.bytes content)) (.bytes content) := by
  have hbytes : Encodes (Decoder.list (Decoder.integer 0 256))
      (Json.list ((content.map fun b => (b.toNat : Int)).map Json.integer))
      (content.map fun b => (b.toNat : Int)) := by
    refine .list fun i hi => ?_
    obtain ⟨b, -, rfl⟩ := List.mem_map.1 hi
    have hlt : b.toNat < 256 := b.toNat_lt
    exact .integer (by omega) (by omega) (by decide) (by decide)
  rw [List.map_map] at hbytes
  refine encodes_scalar (by decide) (by decide) hbytes.printable fun manner depth hdepth => ?_
  have hread := (hbytes.map fun bytes =>
    Value.bytes (bytes.map fun b => UInt8.ofNat b.toNat)).decodes manner depth hdepth
  have hself :
      (content.map fun b => (b.toNat : Int)).map (fun i => UInt8.ofNat i.toNat) = content := by
    simp [Function.comp_def]
  rwa [hself] at hread

theorem encodeItems_eq_map (items : List Value) : encodeItems items = items.map encode := by
  induction items with
  | nil => rfl
  | cons item rest ih => rw [encodeItems, ih, List.map_cons]

theorem encodes_array {items : List Value} (h : ∀ item ∈ items, Encodes decode item.encode item) :
    Encodes decode (encode (.array items)) (.array items) := by
  rw [encode, encodeItems_eq_map]
  refine encodes_content (Encodes.printable_list h) (by simp [Json.list, Json.nesting])
    fun manner depth hdepth => ?_
  rw [Json.list, Json.nesting] at hdepth
  rw [Json.list, decodeContent, Encodes.items h manner (Nat.le_of_succ_le_succ hdepth)]
  rfl

theorem encodeFields_eq_map (fields : List (String × Value)) :
    encodeFields fields = fields.map fun field => (some field.1, field.2.encode) := by
  induction fields with
  | nil => rfl
  | cons field rest ih => rw [encodeFields, ih, List.map_cons]

/-- Encoded fields are put into their places one after the other. -/
theorem decodeFields_encodeFields {value : Json → Except DecodeError Value}
    {fields : List (String × Value)} (h : ∀ field ∈ fields, value field.2.encode = .ok field.2)
    (d : Dict Value) :
    decodeFields value (encodeFields fields) d =
      .ok (fields.foldl (fun d field => Dict.insert field.1 field.2 d) d) := by
  induction fields generalizing d with
  | nil => rfl
  | cons field rest ih =>
    rw [List.forall_mem_cons] at h
    rw [encodeFields, decodeFields, h.1]
    exact ih h.2 _

theorem encodes_map {fields : List (String × Value)} (hsorted : Dict.Sorted fields)
    (h : ∀ field ∈ fields, Encodes decode field.2.encode field.2) :
    Encodes decode (encode (.map fields)) (.map fields) := by
  have hprintable : Json.FieldsPrintable (encodeFields fields) := by
    rw [encodeFields_eq_map, Json.fieldsPrintable_iff]
    rintro _ hfield
    obtain ⟨field, hmem, rfl⟩ := List.mem_map.1 hfield
    exact ⟨rfl, (h field hmem).printable⟩
  refine encodes_content ⟨rfl, hprintable⟩ (by simp [Json.nesting]) fun manner depth hdepth => ?_
  have hvalues : ∀ field ∈ fields, decode manner depth field.2.encode = .ok field.2 := by
    intro field hmem
    rw [Json.nesting, Nat.add_le_add_iff_right, encodeFields_eq_map, Json.fieldsNesting_le_iff]
      at hdepth
    exact (h field hmem).decodes manner depth (hdepth _ (List.mem_map_of_mem hmem))
  rw [decodeContent, decodeFields_encodeFields hvalues,
    Dict.foldl_insert_of_sorted (d := []) (by simpa using hsorted)]
  rfl

mutual

/-- **Every value without a binary number** has an encoded form. -/
theorem encodes : ∀ (v : Value), v.floatFree = true → v.WellFormed → Encodes decode v.encode v
  | .null, _, _ => encodes_null
  | .bool b, _, _ => encodes_bool b
  | .int i, _, _ => encodes_int i
  | .string s, _, _ => encodes_string s
  | .bytes content, _, _ => encodes_bytes content
  | .array items, hfree, hformed => encodes_array (encodes_items items hfree hformed)
  | .map fields, hfree, hformed => encodes_map hformed.1 (encodes_fields fields hfree hformed.2)

theorem encodes_items : ∀ (items : List Value), allFloatFree items = true → AllWellFormed items →
    ∀ item ∈ items, Encodes decode item.encode item
  | [], _, _ => by simp
  | item :: rest, hfree, hformed => by
    rw [allFloatFree, Bool.and_eq_true] at hfree
    exact List.forall_mem_cons.2
      ⟨encodes item hfree.1 hformed.1, encodes_items rest hfree.2 hformed.2⟩

theorem encodes_fields : ∀ (fields : List (String × Value)), fieldsFloatFree fields = true →
    FieldsWellFormed fields → ∀ field ∈ fields, Encodes decode field.2.encode field.2
  | [], _, _ => by simp
  | (key, value) :: rest, hfree, hformed => by
    rw [fieldsFloatFree, Bool.and_eq_true] at hfree
    exact List.forall_mem_cons.2
      ⟨encodes value hfree.1 hformed.1, encodes_fields rest hfree.2 hformed.2⟩

end

end Value

/-! ### Records -/

theorem Parameter.encodes {p : Parameter} (hfree : p.value.floatFree = true)
    (hformed : p.value.WellFormed) : Encodes Parameter.decode p.encode p :=
  .record (f := recordFormat)
    (.once (.string p.name) rfl <|
      .once (p.value.encodes hfree hformed) rfl <|
      .once (.bool p.locked) rfl <| .nil _)
    rfl

theorem Placement.encodes (p : Placement) : Encodes Placement.decode p.encode p :=
  .record (f := recordFormat)
    (.once (.string p.name) rfl <| .once (.string p.phase) rfl <|
      .once (.nameSet p.before) rfl <| .once (.nameSet p.after) rfl <|
      .once (.bool p.first) rfl <| .once (.bool p.last) rfl <| .nil _)
    rfl

theorem PhaseOrder.encodes (order : PhaseOrder) : Encodes PhaseOrder.decode order.encode order :=
  .record (f := recordFormat)
    (.once (.names order.inbound) rfl <| .once (.names order.outbound) rfl <|
      .once (.names order.inFault) rfl <| .once (.names order.outFault) rfl <| .nil _)
    rfl

theorem LogFormat.encodes (format : LogFormat) : Encodes LogFormat.decode format.encode format :=
  .unit (by cases format <;> decide)

theorem LogSettings.encodes (log : LogSettings) : Encodes LogSettings.decode log.encode log :=
  .record (f := recordFormat)
    (.once (.string log.filter) rfl <| .once log.format.encodes rfl <| .nil _)
    rfl

theorem EngineSettings.encodes_limit (limit : UInt32) :
    Encodes EngineSettings.decodeLimit (Json.integer limit.toNat) limit := by
  have hlt : limit.toNat < 4294967296 := limit.toNat_lt
  have hint : Encodes (Decoder.integer 0 (Int.pow 2 32)) (Json.integer limit.toNat) limit.toNat :=
    .integer (by omega) (by rw [show Int.pow 2 32 = 4294967296 from rfl]; omega) (by decide)
      (by decide)
  have hlimit := hint.map fun i => UInt32.ofNat i.toNat
  rwa [Int.toNat_natCast, UInt32.ofNat_toNat] at hlimit

theorem EngineSettings.encodes (s : EngineSettings) : Encodes EngineSettings.decode s.encode s :=
  .record (f := recordFormat)
    (.once (.string s.nodeId) rfl <| .once (encodes_limit s.maxConcurrentExchanges) rfl <|
      .once s.phaseOrder.encodes rfl <| .once s.log.encodes rfl <| .nil _)
    rfl

/-! ### Texts -/

theorem nesting_encodeNames (names : List String) : (encodeNames names).nesting = 1 := by
  have hflat : Json.itemsNesting (names.map Json.text) ≤ 0 := by
    refine Json.itemsNesting_le_iff.2 fun item hitem => ?_
    obtain ⟨name, -, rfl⟩ := List.mem_map.1 hitem
    exact Nat.le_refl 0
  rw [encodeNames, Json.list, Json.nesting, Nat.le_zero.1 hflat]

theorem Placement.nesting_encode (p : Placement) : p.encode.nesting = 2 := by
  simp [encode, Json.record, Json.nesting, Json.fieldsNesting, nesting_encodeNames, Json.text]

theorem PhaseOrder.nesting_encode (order : PhaseOrder) : order.encode.nesting = 2 := by
  simp [encode, Json.record, Json.nesting, Json.fieldsNesting, nesting_encodeNames]

theorem LogSettings.nesting_encode (log : LogSettings) : log.encode.nesting = 1 := by
  simp [encode, LogFormat.encode, Json.record, Json.nesting, Json.fieldsNesting, Json.text]

theorem EngineSettings.nesting_encode (s : EngineSettings) : s.encode.nesting = 3 := by
  simp [encode, Json.record, Json.nesting, Json.fieldsNesting, Json.text, Json.integer,
    PhaseOrder.nesting_encode, LogSettings.nesting_encode]

/-- **Encoding and decoding agree**, through the text.  Values without binary numbers come back as
    they were, by themselves and in parameters, unless their encoded form is nested too deep;
    placements, phase orders and settings are never nested so deep, and all come back. -/
theorem decodeText_print_encode :
    (∀ v : Value, v.floatFree = true → v.WellFormed → v.encode.nesting ≤ nestingLimit →
      Json.decodeText Value.decode v.encode.print = .ok v) ∧
    (∀ p : Parameter, p.value.floatFree = true → p.value.WellFormed →
      p.encode.nesting ≤ nestingLimit →
      Json.decodeText Parameter.decode p.encode.print = .ok p) ∧
    (∀ p : Placement, Json.decodeText Placement.decode p.encode.print = .ok p) ∧
    (∀ order : PhaseOrder, Json.decodeText PhaseOrder.decode order.encode.print = .ok order) ∧
    (∀ log : LogSettings, Json.decodeText LogSettings.decode log.encode.print = .ok log) ∧
    ∀ s : EngineSettings, Json.decodeText EngineSettings.decode s.encode.print = .ok s := by
  refine ⟨fun v hfree hformed => (v.encodes hfree hformed).decodeText,
    fun p hfree hformed => (Parameter.encodes hfree hformed).decodeText,
    fun p => p.encodes.decodeText ?_, fun order => order.encodes.decodeText ?_,
    fun log => log.encodes.decodeText ?_, fun s => s.encodes.decodeText ?_⟩
  · rw [p.nesting_encode]
    decide
  · rw [order.nesting_encode]
    decide
  · rw [log.nesting_encode]
    decide
  · rw [s.nesting_encode]
    decide

/-- A map with an empty key, control characters, quotes, names of kinds and a key beyond ASCII. -/
def oddities : Value :=
  .map [
    ("", .null),
    ("\x00\x1f\t\"\\", .string "\x7f / \n \x08 é 𝄞"),
    ("Array", .array [.int Int64.minValue, .int Int64.maxValue, .array [], .map []]),
    ("Null", .bytes [0, 255]),
    ("é", .bool false)]

/-- The map and a parameter that holds it come back. -/
theorem decodeText_print_encode_oddities :
    Json.decodeText Value.decode oddities.encode.print = .ok oddities ∧
    Json.decodeText Parameter.decode (Parameter.encode ⟨"odd", oddities, true⟩).print =
      .ok ⟨"odd", oddities, true⟩ := by
  have hformed : oddities.WellFormed := by
    refine ⟨?_, ?_⟩
    · unfold Dict.Sorted
      decide
    · simp [Value.FieldsWellFormed, Value.WellFormed, Value.AllWellFormed, Dict.Sorted]
  exact ⟨decodeText_print_encode.1 oddities (by decide) hformed (by decide),
    decodeText_print_encode.2.1 ⟨"odd", oddities, true⟩ (by decide) hformed (by decide)⟩

end ExchangePipeline
