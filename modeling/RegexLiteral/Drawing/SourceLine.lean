import RegexLiteral.Span
import RegexLiteral.Text.Blank
import RegexLiteral.Text.Quoted
import RegexLiteral.Text.Width

/-!
# Lines of a source

Lines end at line feeds, and a carriage return before a line feed belongs to the end of the line. A
byte position is found as a place: a line, and the number of characters and of columns before it.
A position inside a character is no place.
-/

namespace RegexLiteral

structure SourceLine where
  /-- From 1. -/
  number : Nat
  /-- The byte at which the line starts. -/
  start : Nat
  chars : List Char
  /-- The bytes that end the line. -/
  ending : Nat
deriving DecidableEq

/-- A byte position that lies inside a character. -/
structure SplitCharacter where
  position : Nat
  char : Char
  /-- The byte at which the character starts. -/
  start : Nat
deriving DecidableEq

def SplitCharacter.message (s : SplitCharacter) : String :=
  "end byte index " ++ toString s.position ++ " is not a char boundary; it is inside "
    ++ Text.singleQuoted s.char ++ " (bytes " ++ toString s.start ++ ".."
    ++ toString (s.start + s.char.utf8Size) ++ " of string)"

/-- A place in a source. -/
structure Place where
  line : Nat
  /-- The characters before it in its line. -/
  position : Nat
  /-- The columns before it in its line. -/
  column : Nat
deriving DecidableEq

/-- The place so many columns, and as many characters, to the right. -/
def Place.right (p : Place) (n : Nat) : Place :=
  { p with position := p.position + n, column := p.column + n }

namespace SourceLine

/-- The lines of a text that starts at byte `start` with line `number`. -/
def split (number start : Nat) : List Char → List SourceLine
  | [] => []
  | '\r' :: '\n' :: cs => ⟨number, start, [], 2⟩ :: split (number + 1) (start + 2) cs
  | '\n' :: cs => ⟨number, start, [], 1⟩ :: split (number + 1) (start + 1) cs
  | c :: cs =>
    match split number (start + c.utf8Size) cs with
    | [] => [⟨number, start, [c], 0⟩]
    | line :: more => { line with start, chars := c :: line.chars } :: more

/-- The lines of a source. An empty source has one line, and a line feed at the end starts none. -/
def ofSource (source : List Char) : List SourceLine :=
  match split 1 0 source with
  | [] => [⟨1, 0, [], 0⟩]
  | lines => lines

/-- The byte behind the last character, before the end of the line. -/
def textStop (l : SourceLine) : Nat := l.start + byteSize l.chars

def stop (l : SourceLine) : Nat := l.textStop + l.ending

def holds (l : SourceLine) (position : Nat) : Bool := l.start ≤ position && position < l.stop

/-- The line that holds `position`, the last line if none does. -/
def holding (lines : List SourceLine) (position : Nat) : SourceLine :=
  ((lines.find? fun l => l.holds position).or lines.getLast?).getD ⟨1, 0, [], 0⟩

/-- The characters of the first `n` bytes of a text, from byte `start` of the text on. -/
def charsBefore (n start : Nat) : List Char → Except SplitCharacter (List Char)
  | [] => .ok []
  | c :: cs =>
    if n ≤ start then .ok []
    else if n < start + c.utf8Size then .error ⟨n, c, start⟩
    else (c :: ·) <$> charsBefore n (start + c.utf8Size) cs

/-- The place at a byte position. In the end of the line it is that behind the last character. -/
def place (l : SourceLine) (position : Nat) : Except SplitCharacter Place := do
  let before ← charsBefore (position - l.start) 0 l.chars
  return ⟨l.number, before.length, Text.width before⟩

/-- The blank columns before the text of the line. -/
def indentation (l : SourceLine) : Nat :=
  (l.chars.takeWhile Text.isBlank).foldl (fun n c => n + if c = '\t' then 4 else 1) 0

def isBlank (l : SourceLine) : Bool := l.chars.all Text.isBlank

/-- Whether the line says more than a bracket or a comment. Comments that document something count
as text. -/
def tells (l : SourceLine) : Bool :=
  match Text.trimmed l.chars with
  | '/' :: '/' :: '/' :: _ => true
  | '/' :: '/' :: '!' :: _ => true
  | '/' :: '/' :: _ => false
  | [] => false
  | [c] => c ∉ ['\x7b', '\x7d', '(', ')', '[', ']']
  | _ => true

end SourceLine

end RegexLiteral
