/-
  ExchangePipeline/Json/Printer.lean
  ==================================
  **Writing JSON text, without blanks.**

  Strings keep every character but the quote, the backslash and the control
  characters below U+0020; of those, five have a short escape.
-/
import ExchangePipeline.Json
import ExchangePipeline.Binary64.Decimal
import ExchangePipeline.Text.Hexadecimal

namespace ExchangePipeline

namespace Json

/-- A character as it stands in a string. -/
def escape (c : Char) : List Char :=
  match c with
  | '"' => ['\\', '"']
  | '\\' => ['\\', '\\']
  | '\x08' => ['\\', 'b']
  | '\x0c' => ['\\', 'f']
  | '\n' => ['\\', 'n']
  | '\x0d' => ['\\', 'r']
  | '\t' => ['\\', 't']
  | c =>
    if c < ' ' then ['\\', 'u', '0', '0', Text.hexChar (c.toNat / 16), Text.hexChar (c.toNat % 16)]
    else [c]

/-- A string in quotes. -/
def quote (s : String) : String :=
  "\"" ++ String.ofList (s.toList.flatMap escape) ++ "\""

/-- The text of a number. -/
def Number.print : Number → String
  | .integer i => if i < 0 then "-" ++ toString i.natAbs else toString i.natAbs
  | .binary x => x.text
  | .outOfRange => "null"

mutual

/-- The text of a tree. -/
def print : Json → String
  | .null => "null"
  | .bool b => if b then "true" else "false"
  | .number n => n.print
  | .string s => quote (s.getD "")
  | .array items _ => "[" ++ printItems items ++ "]"
  | .object fields _ => "\x7b" ++ printFields fields ++ "\x7d"
  | .broken => "null"

/-- Items with commas between them. -/
def printItems : List Json → String
  | [] => ""
  | [item] => item.print
  | item :: rest => item.print ++ "," ++ printItems rest

/-- Fields with commas between them. -/
def printFields : List (Option String × Json) → String
  | [] => ""
  | [(key, value)] => quote (key.getD "") ++ ":" ++ value.print
  | (key, value) :: rest =>
    quote (key.getD "") ++ ":" ++ value.print ++ "," ++ printFields rest

end

end Json

end ExchangePipeline
