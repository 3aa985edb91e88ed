/-
  ExchangePipeline/Text/Blank.lean
  ================================
  **White space.**

  The blanks are the characters with the property `White_Space`.
-/
import ExchangePipeline.Text.CodePoints

namespace ExchangePipeline

namespace Text

/-- The code points of the blanks. -/
def blanks : CodePoints :=
  ⟨[(0x09, 0x0d), (0x20, 0x20), (0x85, 0x85), (0xa0, 0xa0), (0x1680, 0x1680), (0x2000, 0x200a),
    (0x2028, 0x2029), (0x202f, 0x202f), (0x205f, 0x205f), (0x3000, 0x3000)]⟩

/-- Whether a character is a blank. -/
def isBlank (c : Char) : Bool :=
  blanks.contains c

/-- The text without the blanks around it. -/
def trim (s : List Char) : List Char :=
  ((s.dropWhile isBlank).reverse.dropWhile isBlank).reverse

end Text

end ExchangePipeline
