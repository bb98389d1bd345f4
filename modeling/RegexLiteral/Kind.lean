/-!
# Kinds of lexemes and of outline entries

One enumeration names the lexemes of a source and the entries of an outline: first the lexemes that
stand for one character, then the three that do not, then the token kinds and the node kinds of an
outline. The order of `Kind.all` gives each kind its number.
-/

namespace RegexLiteral

inductive Kind
  | slash
  | pipe
  | caret
  | minus
  | bracketOpen
  | bracketClose
  | braceOpen
  | braceClose
  | parenOpen
  | parenClose
  | plus
  | star
  | question
  | backslash
  | comma
  | digit
  | letter
  | other
  | interpolation
  | garbage
  | eof
  | punctuatorToken
  | keywordToken
  | characterToken
  | pattern
  | alternative
  | character
  | characterClass
  | characterClassRange
  | quantifier
  | braces
  | flags
  | escapeSequence
  | wordCharacterSet
  | gap
deriving DecidableEq

namespace Kind

def all : List Kind :=
  [slash, pipe, caret, minus, bracketOpen, bracketClose, braceOpen, braceClose, parenOpen,
   parenClose, plus, star, question, backslash, comma, digit, letter, other, interpolation, garbage,
   eof, punctuatorToken, keywordToken, characterToken, pattern, alternative, character,
   characterClass, characterClassRange, quantifier, braces, flags, escapeSequence,
   wordCharacterSet, gap]

def name : Kind → String
  | slash => "Slash"
  | pipe => "Pipe"
  | caret => "Caret"
  | minus => "Minus"
  | bracketOpen => "BracketOpen"
  | bracketClose => "BracketClose"
  | braceOpen => "BraceOpen"
  | braceClose => "BraceClose"
  | parenOpen => "ParenOpen"
  | parenClose => "ParenClose"
  | plus => "Plus"
  | star => "Star"
  | question => "Question"
  | backslash => "Backslash"
  | comma => "Comma"
  | digit => "Digit"
  | letter => "Letter"
  | other => "Other"
  | interpolation => "Interpolation"
  | garbage => "Garbage"
  | eof => "Eof"
  | punctuatorToken => "PunctuatorToken"
  | keywordToken => "KeywordToken"
  | characterToken => "CharacterToken"
  | pattern => "Pattern"
  | alternative => "Alternative"
  | character => "Character"
  | characterClass => "CharacterClass"
  | characterClassRange => "CharacterClassRange"
  | quantifier => "Quantifier"
  | braces => "Braces"
  | flags => "Flags"
  | escapeSequence => "EscapeSequence"
  | wordCharacterSet => "WordCharacterSet"
  | gap => "Gap"

/-- The place in `all`, from 0. -/
def number (k : Kind) : Nat := all.idxOf k

def ofNumber? (n : Nat) : Option Kind := all[n]?

def isToken : Kind → Bool
  | punctuatorToken | keywordToken | characterToken => true
  | _ => false

def isError (k : Kind) : Bool := k == garbage

theorem ofNumber?_number (k : Kind) : ofNumber? k.number = some k := by
  cases k <;> rfl

end Kind

/-- A set of kinds, told by its members. -/
structure KindSet where
  members : List Kind

namespace KindSet

def contains (s : KindSet) (k : Kind) : Bool := s.members.contains k

/-- The names of the members, in the order of their numbers. -/
def text (s : KindSet) : String :=
  "\x7b" ++ ", ".intercalate ((Kind.all.filter s.contains).map Kind.name) ++ "\x7d"

/-- The sigils of a single character. -/
def sigils : KindSet := ⟨[.plus, .star, .question]⟩

/-- What ends an alternative. -/
def alternativeEnds : KindSet := ⟨[.slash, .pipe, .eof]⟩

/-- What cannot begin the upper end of a range. -/
def rangeEnds : KindSet := ⟨[.bracketClose, .eof, .garbage]⟩

end KindSet

end RegexLiteral
