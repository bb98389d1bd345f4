import RegexLiteral.Kind
import RegexLiteral.Template

/-!
# Lexemes

A source is read one character at a time: every character is a lexeme of its own, and its kind
depends on the character alone. Only line terminators, which cannot stand in a literal, are taken
together, as long as they follow each other within one segment. At each cut of a template stands a
lexeme without text.
-/

namespace RegexLiteral

def isLineTerminator (c : Char) : Bool :=
  c == '\n' || c == '\r' || c == '\u2028' || c == '\u2029'

/-- The kind of a single character. -/
def Kind.ofChar (c : Char) : Kind :=
  match c with
  | '/' => slash
  | '|' => pipe
  | '^' => caret
  | '-' => minus
  | '[' => bracketOpen
  | ']' => bracketClose
  | '\x7b' => braceOpen
  | '\x7d' => braceClose
  | '(' => parenOpen
  | ')' => parenClose
  | '+' => plus
  | '*' => star
  | '?' => question
  | '\\' => backslash
  | ',' => comma
  | c =>
    if Text.isDigit c then digit
    else if c.isAlpha then letter
    else if isLineTerminator c then garbage
    else other

inductive Piece
  | char (c : Char)
  | interpolation
  | terminators (run : List Char)
deriving DecidableEq

structure Lexeme where
  start : Nat
  piece : Piece
deriving DecidableEq

namespace Piece

def kind : Piece → Kind
  | char c => Kind.ofChar c
  | interpolation => .interpolation
  | terminators _ => .garbage

def chars : Piece → List Char
  | char c => [c]
  | interpolation => []
  | terminators run => run

end Piece

namespace Lexeme

def kind (l : Lexeme) : Kind := l.piece.kind

def chars (l : Lexeme) : List Char := l.piece.chars

def text (l : Lexeme) : String := String.ofList l.chars

def stop (l : Lexeme) : Nat := l.start + byteSize l.chars

def span (l : Lexeme) : Span := ⟨l.start, l.stop⟩

/-- Where a row of lexemes stops that begins at `start`. -/
def stopOf (start : Nat) (ls : List Lexeme) : Nat :=
  match ls.getLast? with
  | none => start
  | some l => l.stop

/-- Puts a character before the lexemes of the same segment that follow it. A line terminator joins
a run that starts right behind it. -/
def prepend (start : Nat) (c : Char) (after : List Lexeme) : List Lexeme :=
  if isLineTerminator c then
    match after with
    | ⟨_, .terminators run⟩ :: more => ⟨start, .terminators (c :: run)⟩ :: more
    | _ => ⟨start, .terminators [c]⟩ :: after
  else ⟨start, .char c⟩ :: after

/-- The lexemes of a segment that starts at byte `start`. -/
def ofSegment (start : Nat) : List Char → List Lexeme
  | [] => []
  | c :: cs => prepend start c (ofSegment (start + c.utf8Size) cs)

/-- The lexemes of segments that are each preceded by a cut. -/
def ofSegments (start : Nat) : List String → List Lexeme
  | [] => []
  | s :: more =>
    ⟨start, .interpolation⟩ :: ofSegment start s.toList
      ++ ofSegments (start + byteSize s.toList) more

end Lexeme

/-- The lexemes of a whole template. -/
def Template.lexemes (t : Template) : List Lexeme :=
  Lexeme.ofSegment 0 t.first.toList ++ Lexeme.ofSegments (byteSize t.first.toList) t.later

end RegexLiteral
