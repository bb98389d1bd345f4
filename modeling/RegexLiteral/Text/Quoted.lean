import RegexLiteral.Text.Invisible

/-!
# Quoted text

A quoting says which characters of a text are written behind a backslash, which have a letter of
their own, and which are written by number, as a backslash, `u` and the code point in braces. The
three quotings in use differ in these decisions alone. Every one of them writes the backslash
behind a backslash, so that a quoted text can be read in one way only.
-/

namespace RegexLiteral.Text

structure Quoting where
  /-- Written as a backslash and the character itself. -/
  guarded : List Char
  /-- Written as a backslash and the letter. -/
  lettered : List (Char × Char)
  /-- Written by number, unless one of the lists above has the character. -/
  numbered : Char → Bool

namespace Quoting

/-- Lower-case hexadecimal digits without leading zeros. -/
def hexDigits (n : Nat) : List Char := Nat.toDigits 16 n

def char (q : Quoting) (c : Char) : List Char :=
  if c ∈ q.guarded then ['\\', c]
  else match q.lettered.lookup c with
    | some letter => ['\\', letter]
    | none => if q.numbered c then "\\u\x7b".toList ++ hexDigits c.toNat ++ ['}'] else [c]

def text (q : Quoting) (s : String) : String := String.ofList (s.toList.flatMap q.char)

end Quoting

/-- Texts in a dump of the typed tree stand between single quotes and show all but control
characters as they are. -/
def dumpQuoting : Quoting where
  guarded := ['\\', '\x27']
  lettered := [('\n', 'n'), ('\r', 'r'), ('\t', 't')]
  numbered := isControl

/-- Letters for the null character, tab and line ends; invisible characters by number. -/
def visibleQuoting (quote : Char) : Quoting where
  guarded := ['\\', quote]
  lettered := [('\x00', '0'), ('\t', 't'), ('\n', 'n'), ('\r', 'r')]
  numbered := fun c => isControl c || isInvisible c

/-- A text between double quotes, with every character visible. -/
def doubleQuoted (s : String) : String :=
  "\x22" ++ (visibleQuoting '\x22').text s ++ "\x22"

/-- A character between single quotes, always visible. -/
def singleQuoted (c : Char) : String :=
  "\x27" ++ String.ofList ((visibleQuoting '\x27').char c) ++ "\x27"

end RegexLiteral.Text
