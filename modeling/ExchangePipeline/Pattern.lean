/-
  ExchangePipeline/Pattern.lean
  =============================
  **Regular expressions.**

  A pattern says which values of a field a log filter lets through.  No text is
  matched here; what counts is whether a pattern can be used at all
  (`Pattern.check`, `Pattern.depth`).

  Flags switch what stands behind them in their group.  Two of them bear on
  whether a pattern can be used: with `i` a character would have to be compared
  without its case, and without `u` a pattern is about bytes, and must not match
  half a character.  No tables of characters are at hand, neither for the cases
  of letters nor for `\d`, `\s` and `\w` beyond ASCII.
-/

namespace ExchangePipeline

namespace Pattern

/-! ### Parts of patterns -/

/-- What a flag switches. -/
inductive Flag where
  | ignoreCase
  | multiLine
  | dotAll
  | swapGreed
  | unicode
  | carriageReturn
  | ignoreBlanks
deriving DecidableEq, Repr

/-- Flags, each switched on or off. -/
abbrev Flags := List (Flag × Bool)

/-- A character that stands for itself. -/
structure Literal where
  char : Char
  /-- Written as two hexadecimal digits, by which a byte may be meant. -/
  isByte : Bool := false
deriving DecidableEq, Repr

/-- A set of characters. -/
inductive CharSet where
  | literal (l : Literal)
  | range (low high : Literal)
  /-- A class with a name, such as `[:alpha:]`. -/
  | named (negated : Bool)
  /-- One of `\d`, `\s` and `\w`; negated as a capital. -/
  | shorthand (negated : Bool)
  | union (sets : List CharSet)
  /-- The intersection or a difference of two sets. -/
  | combined (left right : CharSet)
  /-- A set in brackets. -/
  | bracketed (negated : Bool) (content : CharSet)
deriving Repr, Inhabited

end Pattern

/-- A regular expression. -/
inductive Pattern where
  | literal (l : Pattern.Literal)
  | anyChar
  | anchor
  | wordBoundary
  | set (s : Pattern.CharSet)
  /-- Flags for the rest of the group. -/
  | switch (flags : Pattern.Flags)
  | group (name : Option String) (flags : Pattern.Flags) (body : Pattern)
  | repeated (body : Pattern)
  | sequence (parts : List Pattern)
  | choice (branches : List Pattern)
deriving Repr, Inhabited

namespace Pattern

/-! ### Nesting -/

mutual

/-- How deep brackets are nested in a set; several items in a row count as a level. -/
def CharSet.depth : CharSet → Nat
  | .union [] => 0
  | .union (s :: rest) => CharSet.maxDepth (s :: rest) + 1
  | .combined left right => max left.depth right.depth + 1
  | .bracketed _ content => content.depth + 1
  | _ => 0

/-- The depth of the deepest of some sets. -/
def CharSet.maxDepth : List CharSet → Nat
  | [] => 0
  | s :: rest => max s.depth (CharSet.maxDepth rest)

end

mutual

/-- How deep groups, repetitions, sequences and choices are nested. -/
def depth : Pattern → Nat
  | .set s => s.depth
  | .group _ _ body => body.depth + 1
  | .repeated body => body.depth + 1
  | .sequence [] => 0
  | .sequence (p :: rest) => maxDepth (p :: rest) + 1
  | .choice branches => maxDepth branches + 1
  | _ => 0

/-- The depth of the deepest of some patterns. -/
def maxDepth : List Pattern → Nat
  | [] => 0
  | p :: rest => max p.depth (maxDepth rest)

end

mutual

/-- The names of groups, in the order in which they come. -/
def names : Pattern → List String
  | .group name _ body => name.toList ++ body.names
  | .repeated body => body.names
  | .sequence parts => allNames parts
  | .choice branches => allNames branches
  | _ => []

/-- The names of groups in some patterns. -/
def allNames : List Pattern → List String
  | [] => []
  | p :: rest => p.names ++ allNames rest

end

/-! ### Use -/

/-- What the flags have switched at a place of a pattern. -/
structure Mode where
  ignoreCase : Bool := false
  unicode : Bool := true
deriving DecidableEq, Repr

/-- Switches flags. -/
def Mode.switch (mode : Mode) (flags : Flags) : Mode where
  ignoreCase := (flags.lookup .ignoreCase).getD mode.ignoreCase
  unicode := (flags.lookup .unicode).getD mode.unicode

/-- A character can be compared, unless its other case would be needed, or it is a byte that is no
    character. -/
def Literal.isUsable (mode : Mode) (l : Literal) : Bool :=
  if mode.unicode then !mode.ignoreCase else !l.isByte || l.char.toNat < 0x80

/-- Inside brackets a character beyond ASCII is no byte either. -/
def Literal.isUsableInSet (mode : Mode) (l : Literal) : Bool :=
  if mode.unicode then !mode.ignoreCase else l.char.toNat < 0x80

mutual

/-- A set of bytes holds ASCII alone, so nothing in it is negated. -/
def CharSet.isUsable (mode : Mode) : CharSet → Bool
  | .literal l => l.isUsableInSet mode
  | .range low high => low.isUsableInSet mode && high.isUsableInSet mode
  | .named negated => if mode.unicode then !mode.ignoreCase else !negated
  | .shorthand negated => !mode.unicode && !negated
  | .union sets => CharSet.allUsable mode sets
  | .combined left right => left.isUsable mode && right.isUsable mode
  | .bracketed negated content => (mode.unicode || !negated) && content.isUsable mode

/-- Whether all of some sets are usable. -/
def CharSet.allUsable (mode : Mode) : List CharSet → Bool
  | [] => true
  | s :: rest => s.isUsable mode && CharSet.allUsable mode rest

end

mutual

/-- The mode behind a pattern, if the pattern can be used.  A group leaves the mode as it was. -/
def check (mode : Mode) : Pattern → Option Mode
  | .literal l => if l.isUsable mode then some mode else none
  | .anyChar => if mode.unicode then some mode else none
  | .anchor => some mode
  | .wordBoundary => if mode.unicode then none else some mode
  | .set s => if s.isUsable mode then some mode else none
  | .switch flags => some (mode.switch flags)
  | .group _ flags body => (check (mode.switch flags) body).map fun _ => mode
  | .repeated body => check mode body
  | .sequence parts => checkAll mode parts
  | .choice branches => checkAll mode branches

/-- The mode behind several patterns.  A flag of one branch goes on in the next ones. -/
def checkAll (mode : Mode) : List Pattern → Option Mode
  | [] => some mode
  | p :: rest => (check mode p).bind fun mode => checkAll mode rest

end

/-- How deep a pattern may be nested. -/
def maxNesting : Nat := 250

/-- Whether a pattern can be used: it is not nested too deep, no two groups share a name, and each
    part of it can be used in its mode. -/
def isUsable (p : Pattern) : Bool :=
  p.depth ≤ maxNesting && decide p.names.Nodup && (p.check {}).isSome

end Pattern

end ExchangePipeline
