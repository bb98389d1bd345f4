/-!
# Tokens

A token is a piece of source text with a category. Beside its text it may carry marks that tie it to
a partner: a token opens a balanced span, naming the character that closes it, or is the balancer of
such a span, or opens or closes a span by name alone.
-/

namespace RegexLiteral

inductive Category
  | punctuator
  | keyword
  | character
deriving DecidableEq

def Category.name : Category → String
  | punctuator => "Punctuator"
  | keyword => "Keyword"
  | character => "Character"

def Category.all : List Category := [.punctuator, .keyword, .character]

inductive SpanName
  | pattern
  | characterClass
  | quantifier
  | escape
deriving DecidableEq

def SpanName.name : SpanName → String
  | pattern => "Pattern"
  | characterClass => "CharacterClass"
  | quantifier => "Quantifier"
  | escape => "Escape"

def SpanName.all : List SpanName := [.pattern, .characterClass, .quantifier, .escape]

/-- What an opening token says of its span: the character that closes it, and its name. -/
structure Pairing where
  closer : Char
  span : SpanName
deriving DecidableEq

structure Token where
  category : Category
  text : String
  pairing : Option Pairing
  isBalancer : Bool
  openSpan : Option SpanName
  closeSpan : Option SpanName
deriving DecidableEq

namespace Token

/-- A token without marks. -/
def plain (category : Category) (text : String) : Token :=
  ⟨category, text, none, false, none, none⟩

def ofChar (category : Category) (c : Char) : Token := plain category (String.singleton c)

/-- Marks the token as the opener of `span`, which `closer` closes. -/
def opening (t : Token) (closer : Char) (span : SpanName) : Token :=
  { t with pairing := some ⟨closer, span⟩ }

/-- Marks the token as the closer of the innermost balanced span. -/
def balancing (t : Token) : Token := { t with isBalancer := true }

def startingSpan (t : Token) (span : SpanName) : Token := { t with openSpan := some span }

def endingSpan (t : Token) (span : SpanName) : Token := { t with closeSpan := some span }

@[simp] theorem text_opening (t : Token) (closer : Char) (span : SpanName) :
    (t.opening closer span).text = t.text := rfl

@[simp] theorem text_balancing (t : Token) : t.balancing.text = t.text := rfl

@[simp] theorem text_startingSpan (t : Token) (span : SpanName) :
    (t.startingSpan span).text = t.text := rfl

@[simp] theorem text_endingSpan (t : Token) (span : SpanName) :
    (t.endingSpan span).text = t.text := rfl

@[simp] theorem toList_text_ofChar (category : Category) (c : Char) :
    (ofChar category c).text.toList = [c] := by
  simp [ofChar, plain]

/-- The character of a token of exactly one. -/
def char? (t : Token) : Option Char :=
  match t.text.toList with
  | [c] => some c
  | _ => none

@[simp] theorem char?_ofChar (category : Category) (c : Char) :
    (ofChar category c).char? = some c := by
  simp [ofChar, plain, char?]

end Token

end RegexLiteral
