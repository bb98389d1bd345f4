import RegexLiteral.Json.Encode
import RegexLiteral.Span

/-!
# Errors of reading a literal

An error is a cause at a byte range of the source, and may point to a second range that explains
it. The cause decides the kind of the error and its wording. A cause may also carry a wording of
its own, or none, for errors that are put together by a caller.
-/

namespace RegexLiteral

inductive ErrorKind
  | delimiter
  | flag
  | quantifier
  | characterClass
  | composition
  | lexical
deriving DecidableEq

namespace ErrorKind

def all : List ErrorKind :=
  [delimiter, flag, quantifier, characterClass, composition, lexical]

def name : ErrorKind → String
  | delimiter => "Delimiter"
  | flag => "Flag"
  | quantifier => "Quantifier"
  | characterClass => "CharacterClass"
  | composition => "Composition"
  | lexical => "Lexical"

/-- The kind as an error is called. -/
def title (k : ErrorKind) : String := k.name ++ "Error"

/-- The wording for an error of which no more is known. -/
def fallback : ErrorKind → String
  | delimiter => "unbalanced pattern delimiter"
  | flag => "invalid flag"
  | quantifier => "invalid quantifier"
  | characterClass => "unclosed character class"
  | composition => "invalid embedded subtree"
  | lexical => "line terminators cannot appear in a pattern"

/-- Advice that is drawn under the range of the error. -/
def hint? : ErrorKind → Option String
  | delimiter => some "a pattern is written `/body/flags`"
  | flag => some "valid flags are `g`, `i`, `m`, `s`, `u` and `y`, each at most once"
  | quantifier => some "a quantifier repeats the single element before it"
  | characterClass => some "close the class with `]`"
  | composition => none
  | lexical => some "use `\\n` to match a line break"

end ErrorKind

inductive Cause
  | noOpeningSlash
  | noClosingSlash
  | unfinishedEscape
  | unknownFlag (text : String)
  | duplicateFlag (text : String)
  | nothingToRepeat
  | noQuantifier
  | stackedQuantifier
  | lazyQuantifier (sigil : String)
  | numberTooLarge (text : String)
  | numbersOutOfOrder (min : Nat) (max : Bound)
  | unclosedClass
  | openedBySubtree
  | escapeEndsInSubtree
  | mixedFlags
  | notAnElement (found : NodeType)
  | notAClassElement (found : NodeType)
  | notFlags (found : NodeType)
  | notARangeEnd (found : NodeType)
  | noSubtree (index : Nat)
  | surplusSubtree (index : Nat)
  | lineTerminator
  | unspecified (kind : ErrorKind)
  | custom (kind : ErrorKind) (message : String)
deriving DecidableEq

namespace Cause

def kind : Cause → ErrorKind
  | noOpeningSlash | noClosingSlash | unfinishedEscape => .delimiter
  | unknownFlag _ | duplicateFlag _ => .flag
  | nothingToRepeat | noQuantifier | stackedQuantifier | lazyQuantifier _ | numberTooLarge _
  | numbersOutOfOrder .. => .quantifier
  | unclosedClass => .characterClass
  | openedBySubtree | escapeEndsInSubtree | mixedFlags | notAnElement _ | notAClassElement _
  | notFlags _ | notARangeEnd _ | noSubtree _ | surplusSubtree _ => .composition
  | lineTerminator => .lexical
  | unspecified kind => kind
  | custom kind _ => kind

def message : Cause → String
  | noOpeningSlash => "expected `/` to open the pattern"
  | noClosingSlash => "missing closing `/`"
  | unfinishedEscape => "unterminated escape sequence"
  | unknownFlag text => "unknown flag `" ++ text ++ "`"
  | duplicateFlag text => "duplicate flag `" ++ text ++ "`"
  | nothingToRepeat => "nothing to repeat"
  | noQuantifier => "expected a quantifier"
  | stackedQuantifier => "a quantifier cannot follow another quantifier"
  | lazyQuantifier sigil => "lazy quantifier `" ++ sigil ++ "?` is not supported"
  | numberTooLarge text => "bound `" ++ text ++ "` does not fit in 32 bits"
  | numbersOutOfOrder min max =>
    "numbers out of order in `\x7b" ++ toString min ++ "," ++ max.text ++ "\x7d` quantifier"
  | unclosedClass => "unclosed character class"
  | openedBySubtree => "an embedded subtree cannot open a pattern"
  | escapeEndsInSubtree => "an escape sequence cannot end in an embedded subtree"
  | mixedFlags => "flag letters cannot be mixed with embedded flags"
  | notAnElement found => "expected an element, found `" ++ found.name ++ "`"
  | notAClassElement found => "expected a class element, found `" ++ found.name ++ "`"
  | notFlags found => "expected flags, found `" ++ found.name ++ "`"
  | notARangeEnd found => "a range must end in a character, found `" ++ found.name ++ "`"
  | noSubtree index => "no subtree supplied for interpolation " ++ toString index
  | surplusSubtree index => "no interpolation for supplied subtree " ++ toString index
  | lineTerminator => "line terminators cannot appear in a pattern"
  | unspecified kind => kind.fallback
  | custom _ message => message

end Cause

/-- What a second range has to do with an error. -/
inductive Remark
  | patternOpened
  | classOpened
  | escapeStarted
  | custom (message : String)
deriving DecidableEq

def Remark.message : Remark → String
  | patternOpened => "pattern opened here"
  | classOpened => "class opened here"
  | escapeStarted => "escape started here"
  | custom message => message

structure Related where
  span : Span
  remark : Remark
deriving DecidableEq

structure ParseError where
  cause : Cause
  span : Span
  related : List Related
deriving DecidableEq

def Span.toJson (s : Span) : Json := .object [("end", .number s.stop), ("start", .number s.start)]

def Span.text (s : Span) : String := toString s.start ++ ".." ++ toString s.stop

def Related.toJson (r : Related) : Json :=
  .object [("message", .string r.remark.message), ("range", r.span.toJson)]

def Related.text (r : Related) : String :=
  " (related: " ++ r.remark.message ++ " at " ++ r.span.text ++ ")"

namespace ParseError

def kind (e : ParseError) : ErrorKind := e.cause.kind

def message (e : ParseError) : String := e.cause.message

/-- The byte where reading stopped. -/
def offset (e : ParseError) : Nat := e.span.start

/-- The error on one line. -/
def text (e : ParseError) : String :=
  e.kind.title ++ " at " ++ e.span.text ++ ": " ++ e.message
    ++ String.join (e.related.map Related.text)

/-- The second ranges are left out if there are none. -/
def toJson (e : ParseError) : Json :=
  .object
    ([("kind", .string e.kind.name), ("message", .string e.message), ("range", e.span.toJson)]
      ++ if e.related.isEmpty then [] else [("related", .ofList Related.toJson e.related)])

end ParseError

end RegexLiteral
