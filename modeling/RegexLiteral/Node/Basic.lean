import RegexLiteral.Flag
import RegexLiteral.Text.Decimal
import RegexLiteral.Token

/-!
# Nodes of the syntax tree

The tree of a literal keeps every character of its source: each node type holds its tokens in named
places, in the order of the source. An alternative is a row of elements; an element is an atom, or a
quantifier that repeats an atom, so quantifiers do not nest. A pattern has one separator between any
two neighbouring alternatives.

The types hold what can be written down, and `RegexLiteral.Node.Rules` says which of these values
are sound.
-/

namespace RegexLiteral

inductive NodeType
  | pattern
  | alternative
  | character
  | characterClass
  | characterClassRange
  | quantifier
  | flags
  | escapeSequence
  | wordCharacterSet
  | gap
deriving DecidableEq

def NodeType.all : List NodeType :=
  [.pattern, .alternative, .character, .characterClass, .characterClassRange, .quantifier, .flags,
   .escapeSequence, .wordCharacterSet, .gap]

def NodeType.name : NodeType → String
  | pattern => "Pattern"
  | alternative => "Alternative"
  | character => "Character"
  | characterClass => "CharacterClass"
  | characterClassRange => "CharacterClassRange"
  | quantifier => "Quantifier"
  | flags => "Flags"
  | escapeSequence => "EscapeSequence"
  | wordCharacterSet => "WordCharacterSet"
  | gap => "Gap"

/-- A backslash and its code, with the character that the two stand for. -/
structure EscapeSequence where
  cooked : Char
  escape : Token
  code : Token
deriving DecidableEq

/-- The letters `n r t v f 0` name control characters; every other code stands for itself. -/
def EscapeSequence.decode (code : Char) : Char :=
  match code with
  | 'n' => '\n'
  | 'r' => '\r'
  | 't' => '\t'
  | 'v' => '\x0b'
  | 'f' => '\x0c'
  | '0' => '\x00'
  | c => c

/-- One matched character. -/
inductive Character
  | literal (token : Token)
  | escaped (sequence : EscapeSequence)
deriving DecidableEq

namespace Character

/-- The character that the node stands for; a literal whose token is not one character long
stands for none. -/
def value? : Character → Option Char
  | literal token => token.char?
  | escaped e => some e.cooked

def isEscaped : Character → Bool
  | literal _ => false
  | escaped _ => true

end Character

/-- The word characters, or with `W` all others. -/
structure WordCharacterSet where
  escapeToken : Token
  value : Token
deriving DecidableEq

def WordCharacterSet.isNegated (s : WordCharacterSet) : Bool := s.value.text == "W"

/-- A placeholder that is written in the pattern itself. -/
structure Gap where
  escapeToken : Token
  value : Token
deriving DecidableEq

/-- A range of characters in a class. Nothing is asked of the order of its ends. -/
structure CharacterClassRange where
  min : Character
  sigilToken : Token
  max : Character
deriving DecidableEq

inductive ClassElement
  | character (c : Character)
  | range (r : CharacterClassRange)
  | wordCharacterSet (s : WordCharacterSet)
deriving DecidableEq

def ClassElement.type : ClassElement → NodeType
  | character _ => .character
  | range _ => .characterClassRange
  | wordCharacterSet _ => .wordCharacterSet

structure CharacterClass where
  openToken : Token
  negateToken : Option Token
  elements : List ClassElement
  closeToken : Token
deriving DecidableEq

def CharacterClass.isNegated (c : CharacterClass) : Bool := c.negateToken.isSome

/-- How often at most an element is repeated. -/
inductive Bound
  | finite (n : Nat)
  | infinite
deriving DecidableEq

namespace Bound

def allows (b : Bound) (min : Nat) : Bool :=
  match b with
  | finite max => min ≤ max
  | infinite => true

def text : Bound → String
  | finite n => toString n
  | infinite => "+Infinity"

end Bound

/-- Bounds between braces: one number, a number and a comma, or two numbers and a comma. -/
structure Braces where
  openToken : Token
  minToken : Token
  separatorToken : Option Token
  maxToken : Option Token
  closeToken : Token
deriving DecidableEq

/-- The numbers that the braces spell: a number alone is both bounds, and one with nothing after its
comma has no upper bound. -/
def Braces.bounds? (b : Braces) : Option (Nat × Bound) := do
  let min ← Text.readNumber? b.minToken.text
  match b.separatorToken, b.maxToken with
  | none, _ => return (min, .finite min)
  | some _, none => return (min, .infinite)
  | some _, some max => return (min, .finite (← Text.readNumber? max.text))

/-- What is written after an element to repeat it. -/
inductive Sigil
  | token (t : Token)
  | braces (b : Braces)
deriving DecidableEq

namespace Sigil

def tokenBounds? (text : String) : Option (Nat × Bound) :=
  if text = "+" then some (1, .infinite)
  else if text = "*" then some (0, .infinite)
  else if text = "?" then some (0, .finite 1)
  else none

/-- The least and the greatest number of times that the sigil spells, if it spells any. -/
def bounds? : Sigil → Option (Nat × Bound)
  | token t => tokenBounds? t.text
  | braces b => b.bounds?

end Sigil

/-- What can be repeated. -/
inductive Atom
  | character (c : Character)
  | characterClass (c : CharacterClass)
  | wordCharacterSet (s : WordCharacterSet)
  | gap (g : Gap)
deriving DecidableEq

structure Quantifier where
  atom : Atom
  sigil : Sigil
  min : Nat
  max : Bound
deriving DecidableEq

/-- What can stand in an alternative. -/
inductive Element
  | atom (a : Atom)
  | quantifier (q : Quantifier)
deriving DecidableEq

def Atom.type : Atom → NodeType
  | character _ => .character
  | characterClass _ => .characterClass
  | wordCharacterSet _ => .wordCharacterSet
  | gap _ => .gap

def Element.type : Element → NodeType
  | atom a => a.type
  | quantifier _ => .quantifier

structure Alternative where
  elements : List Element
deriving DecidableEq

/-- The flags that are on, and their letters in the order of the source. -/
structure Flags where
  set : FlagSet
  tokens : List Token
deriving DecidableEq

/-- A whole literal. Every alternative after the first stands behind its separator. -/
structure Pattern where
  openToken : Token
  first : Alternative
  rest : List (Token × Alternative)
  closeToken : Token
  flags : Flags
deriving DecidableEq

namespace Pattern

def alternatives (p : Pattern) : List Alternative := p.first :: p.rest.map Prod.snd

def separatorTokens (p : Pattern) : List Token := p.rest.map Prod.fst

end Pattern

inductive Node
  | pattern (p : Pattern)
  | alternative (a : Alternative)
  | character (c : Character)
  | characterClass (c : CharacterClass)
  | characterClassRange (r : CharacterClassRange)
  | quantifier (q : Quantifier)
  | flags (f : Flags)
  | escapeSequence (e : EscapeSequence)
  | wordCharacterSet (s : WordCharacterSet)
  | gap (g : Gap)
deriving DecidableEq

def Node.type : Node → NodeType
  | pattern _ => .pattern
  | alternative _ => .alternative
  | character _ => .character
  | characterClass _ => .characterClass
  | characterClassRange _ => .characterClassRange
  | quantifier _ => .quantifier
  | flags _ => .flags
  | escapeSequence _ => .escapeSequence
  | wordCharacterSet _ => .wordCharacterSet
  | gap _ => .gap

end RegexLiteral
