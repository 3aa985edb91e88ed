/-
  ExchangePipeline/LogFilter.lean
  ===============================
  **Which log filters are valid.**

  A filter is a list of directives with commas between them.  A directive is a
  level, a target, or a target and a level with `=` between them; behind the
  target it may name a span in brackets, and in braces a field of it, with `=`
  and a value if need be.  The value is a number, a truth value or a pattern.
  Only the form is checked here: no logging happens.

  Places in a directive are counted in bytes, from its first character that is
  no blank, but what stands at a place is looked up in the text with its blanks.
  So in a directive with blanks before it fields and level are cut out too early.
-/
import ExchangePipeline.Pattern.Reader
import ExchangePipeline.Settings
import ExchangePipeline.Text.Alphanumeric
import ExchangePipeline.Text.Blank

namespace ExchangePipeline

namespace LogFilter

/-! ### Levels and values -/

/-- The names of the levels. -/
def levelNames : List String := ["error", "warn", "info", "debug", "trace", "off"]

/-- Whether a text is a level: a name in any case, a number up to five, or nothing. -/
def isLevel (s : List Char) : Bool :=
  let digits := match s with
    | '+' :: rest => rest
    | _ => s
  s.isEmpty || levelNames.contains (String.ofList (s.map Char.toLower)) ||
    (!digits.isEmpty && digits.all Char.isDigit &&
      digits.foldl (fun n c => 10 * n + (c.toNat - 48)) 0 ≤ 5)

/-- The text without a sign before it. -/
def dropSign : List Char → List Char
  | '+' :: rest => rest
  | '-' :: rest => rest
  | s => s

/-- Whether a text is nothing, or an exponent of ten. -/
def endsNumber : List Char → Bool
  | [] => true
  | c :: rest =>
    let digits := dropSign rest
    (c = 'e' || c = 'E') && !digits.isEmpty && digits.all Char.isDigit

/-- Whether a text is a number: digits, of which some may stand behind a point, and an exponent, or
    the name of what is no finite number, in any case. -/
def isNumber (s : List Char) : Bool :=
  let s := dropSign s
  let whole := s.takeWhile Char.isDigit
  let (fraction, rest) := match s.dropWhile Char.isDigit with
    | '.' :: more => (more.takeWhile Char.isDigit, more.dropWhile Char.isDigit)
    | rest => ([], rest)
  (!(whole ++ fraction).isEmpty && endsNumber rest) ||
    ["inf", "infinity", "nan"].contains (String.ofList (s.map Char.toLower))

/-- Whether a field may be asked for with this text: a name, or a name and a value.  A truth value
    is a pattern as it stands; from a further `=` on, nothing counts. -/
def isField (s : List Char) : Bool :=
  !s.isEmpty &&
    match s.splitOn '=' with
    | _ :: value :: _ => isNumber value || Pattern.isValid value
    | _ => true

/-! ### Places -/

/-- The text behind so many bytes, unless they end inside a character. -/
def dropBytes : Nat → List Char → Option (List Char)
  | 0, s => some s
  | _ + 1, [] => none
  | n + 1, c :: rest => if c.utf8Size ≤ n + 1 then dropBytes (n + 1 - c.utf8Size) rest else none

/-- So many bytes of a text, unless they end inside a character. -/
def takeBytes : Nat → List Char → Option (List Char)
  | 0, _ => some []
  | _ + 1, [] => none
  | n + 1, c :: rest =>
    if c.utf8Size ≤ n + 1 then (takeBytes (n + 1 - c.utf8Size) rest).map (c :: ·) else none

/-- The text from one place up to another. -/
def slice (first last : Nat) (s : List Char) : Option (List Char) :=
  (dropBytes first s).bind (takeBytes (last - first))

/-! ### Directives -/

/-- Whether a directive may begin with this character. -/
def isStart (c : Char) : Bool :=
  Text.isAlphanumeric c || c = '-' || c = ':' || c = '_'

/-- Where a directive has been read to.  Fields and level know the place where they begin. -/
inductive State where
  | start
  | target                            -- a level or a target
  | span
  | fields (begin : Nat)
  | afterFields
  | afterSpan
  | level (begin : Nat)

/-- Reads one more character of a directive, at a place; `none` if it cannot stand there. -/
def advance (directive : List Char) (place : Nat) (c : Char) : State → Option State
  | .start => if c = '[' then some .span else if isStart c then some .target else none
  | .target =>
    if c = '=' then some (.level (place + 1)) else if c = '[' then some .span else some .target
  | .span =>
    if c = ']' then some .afterSpan
    else if c = '\x7b' then some (.fields (place + 1))
    else some .span
  | .fields begin =>
    if c = '\x7d' then
      if (slice begin place directive).any isField then some .afterFields else none
    else some (.fields begin)
  | .afterFields => if c = ']' then some .afterSpan else none
  | .afterSpan => if c = '=' then some (.level (place + 1)) else none
  | .level begin => some (.level begin)

/-- Reads characters of a directive from a place on. -/
def advanceAll (directive : List Char) : Nat → List Char → State → Option State
  | _, [], state => some state
  | place, c :: rest, state =>
    (advance directive place c state).bind (advanceAll directive (place + c.utf8Size) rest)

/-- Whether a directive is valid. -/
def isDirective (directive : List Char) : Bool :=
  match advanceAll directive 0 (Text.trim directive) .start with
  | some .target => true
  | some .afterSpan => true
  | some (.level begin) => (dropBytes begin directive).any isLevel
  | _ => false

/-- Whether a filter is valid: empty directives are passed over. -/
def isValid (filter : String) : Bool :=
  (filter.toList.splitOn ',').all fun directive => directive.isEmpty || isDirective directive

end LogFilter

/-- Why logging cannot be set up. -/
inductive LogError where
  | invalidFilter (filter : String)
  /-- Logging is set up once; this is the second time. -/
  | alreadyInstalled
deriving DecidableEq, Repr

/-- The text of an error that has one; that of an invalid filter ends where the reason would
    stand. -/
def LogError.message? : LogError → Option String
  | .invalidFilter filter => some ("invalid log filter '" ++ filter ++ "': ")
  | .alreadyInstalled => none

/-- Sets up logging where it is set up already: the filter is checked first all the same. -/
def LogSettings.installAgain (log : LogSettings) : LogError :=
  if LogFilter.isValid log.filter then .alreadyInstalled else .invalidFilter log.filter

end ExchangePipeline
