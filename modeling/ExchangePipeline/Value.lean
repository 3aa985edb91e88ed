/-
  ExchangePipeline/Value.lean
  ===========================
  **Values of parameters and message properties.**

  A value is anything JSON can say, with integers of 64 bits told apart from
  binary numbers, or a string of bytes.  The fields of a map are a dictionary:
  strictly sorted by key.
-/
import ExchangePipeline.Dict
import ExchangePipeline.Json

namespace ExchangePipeline

/-- A value of a parameter or of a message property. -/
inductive Value where
  | null
  | bool (b : Bool)
  | int (i : Int64)
  | float (x : Binary64)
  | string (s : String)
  | bytes (content : List UInt8)
  | array (items : List Value)
  | map (fields : List (String × Value))

namespace Value

/-! ### Access -/

/-- The text of a string value. -/
def asString? : Value → Option String
  | .string s => some s
  | _ => none

/-- The truth value of a boolean. -/
def asBool? : Value → Option Bool
  | .bool b => some b
  | _ => none

/-- The integer of an integer value. -/
def asInt? : Value → Option Int64
  | .int i => some i
  | _ => none

/-- The field `key` of a map. -/
def field? (key : String) : Value → Option Value
  | .map fields => Dict.find? key fields
  | _ => none

/-! ### Shape -/

mutual

/-- Whether no binary number occurs in the value. -/
def floatFree : Value → Bool
  | .float _ => false
  | .array items => allFloatFree items
  | .map fields => fieldsFloatFree fields
  | _ => true

/-- Whether no binary number occurs in the items. -/
def allFloatFree : List Value → Bool
  | [] => true
  | item :: rest => item.floatFree && allFloatFree rest

/-- Whether no binary number occurs in the fields. -/
def fieldsFloatFree : List (String × Value) → Bool
  | [] => true
  | (_, value) :: rest => value.floatFree && fieldsFloatFree rest

end

mutual

/-- Whether every map in the value is sorted by key, as maps that the library builds are. -/
def WellFormed : Value → Prop
  | .array items => AllWellFormed items
  | .map fields => Dict.Sorted fields ∧ FieldsWellFormed fields
  | _ => True

/-- Whether all items are well-formed. -/
def AllWellFormed : List Value → Prop
  | [] => True
  | item :: rest => item.WellFormed ∧ AllWellFormed rest

/-- Whether all field values are well-formed. -/
def FieldsWellFormed : List (String × Value) → Prop
  | [] => True
  | (_, value) :: rest => value.WellFormed ∧ FieldsWellFormed rest

end

/-! ### Plain JSON -/

mutual

/-- The value of a plain JSON tree: an integer that fits in 64 signed bits stays an integer, every
    other number is binary, and of two fields with one key the later one counts.  `none` for a
    tree that is not complete, or nested deeper than `depth`. -/
def ofPlain? : Nat → Json → Option Value
  | _, .null => some .null
  | _, .bool b => some (.bool b)
  | _, .number (.integer i) =>
    if i < Int.pow 2 63 then some (.int (Int64.ofInt i)) else some (.float (Binary64.ofInt i))
  | _, .number (.binary x) => some (.float x)
  | _, .string (some s) => some (.string s)
  | depth + 1, .array items true => (allOfPlain? depth items).map .array
  | depth + 1, .object fields true => (fieldsOfPlain? depth fields []).map .map
  | _, _ => none

/-- The values of plain items. -/
def allOfPlain? : Nat → List Json → Option (List Value)
  | _, [] => some []
  | depth, item :: rest => do
    let value ← ofPlain? depth item
    return value :: (← allOfPlain? depth rest)

/-- The fields of a plain object, put into key order one after the other. -/
def fieldsOfPlain? : Nat → List (Option String × Json) → Dict Value → Option (Dict Value)
  | _, [], fields => some fields
  | depth, (key, item) :: rest, fields => do
    let key ← key
    let value ← ofPlain? depth item
    fieldsOfPlain? depth rest (Dict.insert key value fields)

end

end Value

end ExchangePipeline
