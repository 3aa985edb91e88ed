/-
  ExchangePipeline/Codec.lean
  ===========================
  **Reading typed values out of JSON trees.**

  A decoder takes the number of levels that may still be nested and a tree, and
  reports the first fault in document order.  Three kinds of fault are named: a
  field that is missing, one that is given twice, and an unknown alternative;
  everything else is `malformed`.

  A tree is decoded while its text is read (`Json.decodeText`), or once all of it
  is there (`Json.decodeTree`).  In the second manner the fields of an object
  come in the order of their keys, the last of each key, and an object that
  stands for an alternative is refused by its number of keys before its key is
  looked at.

  A record is written as an object, with its fields in any order and unknown
  fields passed over, or as an array of its fields in declared order, of which
  trailing ones with a default may be left out.  An alternative without content
  is its name, or an object with that one key and `null`.
-/
import ExchangePipeline.Dict
import ExchangePipeline.Json.Reader

namespace ExchangePipeline

/-- What is wrong with a tree that should hold a typed value. -/
inductive DecodeError where
  | malformed
  | missingField (name : String)
  | duplicateField (name : String)
  | unknownVariant (name : String)
deriving DecidableEq, Repr

/-- The text of a fault that has a name. -/
def DecodeError.message? : DecodeError → Option String
  | .malformed => none
  | .missingField name => some ("missing field `" ++ name ++ "`")
  | .duplicateField name => some ("duplicate field `" ++ name ++ "`")
  | .unknownVariant name => some ("unknown variant `" ++ name ++ "`")

/-- How much of a tree a decoder can see. -/
inductive Manner where
  | streamed                          -- as far as the text has been read
  | whole                             -- all of it
deriving DecidableEq, Repr

/-- Reads an `α` from a tree, in a manner, with a number of levels left to nest. -/
abbrev Decoder (α : Type) := Manner → Nat → Json → Except DecodeError α

namespace Decoder

variable {α π : Type}

/-! ### Scalars -/

/-- A string. -/
def string : Decoder String
  | _, _, .string (some s) => .ok s
  | _, _, _ => .error .malformed

/-- A truth value. -/
def bool : Decoder Bool
  | _, _, .bool b => .ok b
  | _, _, _ => .error .malformed

/-- An integer from `low` up to, but not including, `high`. -/
def integer (low high : Int) : Decoder Int
  | _, _, .number (.integer i) => if low ≤ i ∧ i < high then .ok i else .error .malformed
  | _, _, _ => .error .malformed

/-- A binary number, or an integer rounded to one. -/
def binary : Decoder Binary64
  | _, _, .number (.integer i) => .ok (Binary64.ofInt i)
  | _, _, .number (.binary x) => .ok x
  | _, _, _ => .error .malformed

/-! ### Arrays -/

/-- The items of an array, in order. -/
def items (item : Json → Except DecodeError α) : List Json → Except DecodeError (List α)
  | [] => .ok []
  | j :: rest => do
    let a ← item j
    let as ← items item rest
    return a :: as

/-- An array. -/
def list (item : Decoder α) : Decoder (List α)
  | manner, depth + 1, .array js closed => do
    let as ← items (item manner depth) js
    if closed then return as else throw .malformed
  | _, _, _ => .error .malformed

/-- An array of names, read as a set. -/
def nameSet : Decoder NameSet := fun manner depth j => do
  return NameSet.ofList (← list string manner depth j)

/-! ### Alternatives -/

/-- The alternative that an object names with its one key.  Where all of the object can be seen,
    further keys come to light before the alternative is read. -/
def alternative (read : String → Json → Except DecodeError α) (manner : Manner) :
    List (Option String × Json) → Bool → Except DecodeError α
  | (some key, content) :: rest, closed =>
    if manner = .whole ∧ !rest.isEmpty then .error .malformed
    else do
      let a ← read key content
      if closed && rest.isEmpty then return a else throw .malformed
  | _, _ => .error .malformed

/-- One of the alternatives without content that `ofName?` knows. -/
def unit (ofName? : String → Option α) : Decoder α
  | _, _, .string (some s) =>
    match ofName? s with
    | some a => .ok a
    | none => .error (.unknownVariant s)
  | manner, _ + 1, .object fields closed =>
    alternative (fun key content =>
      match ofName? key, content with
      | none, _ => .error (.unknownVariant key)
      | some a, .null => .ok a
      | some _, _ => .error .malformed) manner fields closed
  | _, _, _ => .error .malformed

end Decoder

/-! ### Records -/

/-- How a record is read: `π` is the record with some of its fields filled in. -/
structure RecordFormat (π α : Type) where
  /-- The field names in declared order. -/
  fields : List String
  /-- No field filled in. -/
  blank : π
  /-- Fills in a field. -/
  read : String → π → Decoder π
  /-- The record, once no more fields come. -/
  finish : π → Except DecodeError α

/-- Fills in a field that may come once. -/
def readOnce {α π : Type} (name : String) (slot : Option α) (decoder : Decoder α) (fill : α → π) :
    Decoder π := fun manner depth j =>
  match slot with
  | some _ => .error (.duplicateField name)
  | none => (decoder manner depth j).map fill

/-- A field that has to be there. -/
def required {α : Type} (name : String) : Option α → Except DecodeError α
  | some a => .ok a
  | none => .error (.missingField name)

namespace RecordFormat

variable {α π : Type}

/-- Reads the fields of an object, passing over unknown ones. -/
def readFields (f : RecordFormat π α) (manner : Manner) (depth : Nat) :
    List (Option String × Json) → π → Except DecodeError π
  | [], p => .ok p
  | (none, _) :: _, _ => .error .malformed
  | (some key, j) :: rest, p =>
    if key ∈ f.fields then do
      let p ← f.read key p manner depth j
      readFields f manner depth rest p
    else if j.intact then readFields f manner depth rest p
    else .error .malformed

/-- Reads the items of an array as the fields in declared order. -/
def readItems (f : RecordFormat π α) (manner : Manner) (depth : Nat) :
    List String → List Json → π → Except DecodeError π
  | _, [], p => .ok p
  | [], _ :: _, _ => .error .malformed
  | name :: names, j :: rest, p => do
    let p ← f.read name p manner depth j
    readItems f manner depth names rest p

/-- Reads a record. -/
def decode (f : RecordFormat π α) : Decoder α
  | manner, depth + 1, .object fields closed => do
    let p ← f.readFields manner depth fields f.blank
    if closed then f.finish p else throw .malformed
  | manner, depth + 1, .array items closed => do
    let p ← f.readItems manner depth f.fields items f.blank
    match closed, f.finish p with
    | true, .ok a => return a
    | _, _ => throw .malformed
  | _, _, _ => .error .malformed

end RecordFormat

/-- How deep arrays and objects may be nested in a text that is read. -/
def nestingLimit : Nat := 127

/-- Reads a typed value from a text that holds nothing else. -/
def Json.decodeText {α : Type} (decoder : Decoder α) (s : String) : Except DecodeError α :=
  let (tree, ended) := Json.read s
  match decoder .streamed nestingLimit tree with
  | .ok a => if ended then .ok a else .error .malformed
  | .error fault => .error fault

/-- Reads a typed value from a tree that is there as a whole. -/
def Json.decodeTree {α : Type} (decoder : Decoder α) (j : Json) : Except DecodeError α :=
  decoder .whole nestingLimit j.tidy

end ExchangePipeline
