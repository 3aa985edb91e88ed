/-
  ExchangePipeline/Codec/Value.lean
  =================================
  **The encoded form of values.**

  A value is tagged with its kind: `"Null"`, or an object whose one key names
  the kind and whose field holds the content.
-/
import ExchangePipeline.Codec
import ExchangePipeline.Parameter

namespace ExchangePipeline

namespace Value

/-- The kinds of values by name. -/
def kinds : List String :=
  ["Null", "Bool", "Int", "Float", "String", "Bytes", "Array", "Map"]

/-- An object with one field. -/
def tagged (kind : String) (content : Json) : Json :=
  Json.record [(kind, content)]

mutual

/-- The encoded value. -/
def encode : Value → Json
  | .null => Json.text "Null"
  | .bool b => tagged "Bool" (.bool b)
  | .int i => tagged "Int" (Json.integer i.toInt)
  | .float x => tagged "Float" (.number (.binary x))
  | .string s => tagged "String" (Json.text s)
  | .bytes content => tagged "Bytes" (Json.list (content.map fun b => Json.integer b.toNat))
  | .array items => tagged "Array" (Json.list (encodeItems items))
  | .map fields => tagged "Map" (.object (encodeFields fields) true)

/-- The encoded items. -/
def encodeItems : List Value → List Json
  | [] => []
  | item :: rest => item.encode :: encodeItems rest

/-- The encoded fields. -/
def encodeFields : List (String × Value) → List (Option String × Json)
  | [] => []
  | (key, value) :: rest => (some key, value.encode) :: encodeFields rest

end

/-- The fields of a map, each put into its place as it comes. -/
def decodeFields (item : Json → Except DecodeError Value) :
    List (Option String × Json) → Dict Value → Except DecodeError (Dict Value)
  | [], fields => .ok fields
  | (none, _) :: _, _ => .error .malformed
  | (some key, j) :: rest, fields => do
    let value ← item j
    decodeFields item rest (Dict.insert key value fields)

/-- The content of a value whose kind holds no other values. -/
def decodeScalar (kind : String) (manner : Manner) (depth : Nat) (content : Json) :
    Except DecodeError Value :=
  match kind with
  | "Null" =>
    match content with
    | .null => .ok .null
    | _ => .error .malformed
  | "Bool" => (Decoder.bool manner depth content).map .bool
  | "Int" =>
    (Decoder.integer (-Int.pow 2 63) (Int.pow 2 63) manner depth content).map fun i =>
      .int (Int64.ofInt i)
  | "Float" => (Decoder.binary manner depth content).map .float
  | "String" => (Decoder.string manner depth content).map .string
  | "Bytes" =>
    (Decoder.list (Decoder.integer 0 256) manner depth content).map fun bytes =>
      .bytes (bytes.map fun b => UInt8.ofNat b.toNat)
  | kind => if kind ∈ kinds then .error .malformed else .error (.unknownVariant kind)

/-- The content of a value of any kind; the values in it are read by `value`. -/
def decodeContent (value : Json → Except DecodeError Value) (kind : String) (manner : Manner)
    (depth : Nat) (content : Json) : Except DecodeError Value :=
  match kind, content with
  | "Array", .array items closed => do
    let values ← Decoder.items value items
    if closed then return .array values else throw .malformed
  | "Map", .object fields closed => do
    let fields ← decodeFields value fields []
    if closed then return .map fields else throw .malformed
  | kind, content => decodeScalar kind manner depth content

/-- A value from its encoded form. -/
def decode : Decoder Value
  | _, _, .string (some kind) =>
    if kind = "Null" then .ok .null
    else if kind ∈ kinds then .error .malformed
    else .error (.unknownVariant kind)
  | manner, 1, .object fields closed =>
    Decoder.alternative (fun kind content => decodeScalar kind manner 0 content) manner fields closed
  | manner, depth + 2, .object fields closed =>
    Decoder.alternative (decodeContent (decode manner depth) · manner (depth + 1) ·) manner fields
      closed
  | _, _, _ => .error .malformed

end Value

end ExchangePipeline
