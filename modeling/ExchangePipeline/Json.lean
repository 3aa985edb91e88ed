/-
  ExchangePipeline/Json.lean
  ==========================
  **JSON trees, whole or broken off.**

  A reader of a typed value reports the first thing that is wrong in document
  order, and a text may be cut off or malformed after that point.  So a tree
  keeps what could be read: an array or an object that was not closed properly
  is marked, and the place where reading stopped is `broken`.
-/
import ExchangePipeline.Binary64

namespace ExchangePipeline

/-- What a number text stands for. -/
inductive Json.Number where
  | integer (i : Int)           -- from -2^63 up to 2^64 - 1
  | binary (x : Binary64)
  | outOfRange                  -- beyond the finite numbers
deriving DecidableEq, Repr

/-- A JSON tree, as far as its text could be read. -/
inductive Json where
  | null
  | bool (b : Bool)
  | number (n : Json.Number)
  /-- A string; `none` when an escape in it stands for half a character. -/
  | string (s : Option String)
  | array (items : List Json) (closed : Bool)
  | object (fields : List (Option String × Json)) (closed : Bool)
  | broken
deriving Repr, Inhabited

namespace Json

/-- A string value. -/
def text (s : String) : Json := .string (some s)

/-- An integer value. -/
def integer (i : Int) : Json := .number (.integer i)

/-- A complete array. -/
def list (items : List Json) : Json := .array items true

/-- A complete object. -/
def record (fields : List (String × Json)) : Json :=
  .object (fields.map fun field => (some field.1, field.2)) true

mutual

/-- Whether the tree is that of a complete text. -/
def intact : Json → Bool
  | .array items closed => closed && allIntact items
  | .object fields closed => closed && fieldsIntact fields
  | .broken => false
  | _ => true

/-- Whether all items are complete. -/
def allIntact : List Json → Bool
  | [] => true
  | item :: rest => item.intact && allIntact rest

/-- Whether all field values are complete. -/
def fieldsIntact : List (Option String × Json) → Bool
  | [] => true
  | (_, value) :: rest => value.intact && fieldsIntact rest

end

/-- Puts a field into its place among fields in the order of their keys, unless there is one of its
    key already.  A field without a readable key goes to the front. -/
def placeField (field : Option String × Json) :
    List (Option String × Json) → List (Option String × Json)
  | [] => [field]
  | next :: rest =>
    match field.1, next.1 with
    | none, _ => field :: next :: rest
    | some _, none => next :: placeField field rest
    | some key, some other =>
      if key < other then field :: next :: rest
      else if key = other then next :: rest
      else next :: placeField field rest

mutual

/-- The tree with the fields of every object in the order of their keys, the last of each key. -/
def tidy : Json → Json
  | .array items closed => .array (tidyItems items) closed
  | .object fields closed => .object (tidyFields fields) closed
  | .null => .null
  | .bool b => .bool b
  | .number n => .number n
  | .string s => .string s
  | .broken => .broken

/-- The items, each made tidy. -/
def tidyItems : List Json → List Json
  | [] => []
  | item :: rest => item.tidy :: tidyItems rest

/-- The fields, each made tidy and put into its place; a later one of the same key stays. -/
def tidyFields : List (Option String × Json) → List (Option String × Json)
  | [] => []
  | (key, value) :: rest => placeField (key, value.tidy) (tidyFields rest)

end

end Json

end ExchangePipeline
