import RegexLiteral.Node.Basic

/-!
# Tokens and text of a node

Each node lists its tokens in the order of the source, so the texts of the tokens, one after
another, are the source from which the node was read.
-/

namespace RegexLiteral

/-- The texts of the tokens, one after another. -/
def joinText (tokens : List Token) : String :=
  String.ofList (tokens.flatMap fun t => t.text.toList)

theorem toList_joinText (tokens : List Token) :
    (joinText tokens).toList = tokens.flatMap fun t => t.text.toList := by
  simp [joinText]

def EscapeSequence.tokens (e : EscapeSequence) : List Token := [e.escape, e.code]

def Character.tokens : Character → List Token
  | literal token => [token]
  | escaped e => e.tokens

def WordCharacterSet.tokens (s : WordCharacterSet) : List Token := [s.escapeToken, s.value]

def Gap.tokens (g : Gap) : List Token := [g.escapeToken, g.value]

def CharacterClassRange.tokens (r : CharacterClassRange) : List Token :=
  r.min.tokens ++ r.sigilToken :: r.max.tokens

def ClassElement.tokens : ClassElement → List Token
  | character c => c.tokens
  | range r => r.tokens
  | wordCharacterSet s => s.tokens

def CharacterClass.tokens (c : CharacterClass) : List Token :=
  c.openToken :: c.negateToken.toList ++ c.elements.flatMap ClassElement.tokens ++ [c.closeToken]

def Braces.tokens (b : Braces) : List Token :=
  b.openToken :: b.minToken :: b.separatorToken.toList ++ b.maxToken.toList ++ [b.closeToken]

def Sigil.tokens : Sigil → List Token
  | token t => [t]
  | braces b => b.tokens

def Atom.tokens : Atom → List Token
  | character c => c.tokens
  | characterClass c => c.tokens
  | wordCharacterSet s => s.tokens
  | gap g => g.tokens

def Quantifier.tokens (q : Quantifier) : List Token := q.atom.tokens ++ q.sigil.tokens

def Element.tokens : Element → List Token
  | atom a => a.tokens
  | quantifier q => q.tokens

def Alternative.tokens (a : Alternative) : List Token := a.elements.flatMap Element.tokens

def Pattern.tokens (p : Pattern) : List Token :=
  p.openToken :: p.first.tokens ++ p.rest.flatMap (fun r => r.1 :: r.2.tokens)
    ++ p.closeToken :: p.flags.tokens

def Node.tokens : Node → List Token
  | pattern p => p.tokens
  | alternative a => a.tokens
  | character c => c.tokens
  | characterClass c => c.tokens
  | characterClassRange r => r.tokens
  | quantifier q => q.tokens
  | flags f => f.tokens
  | escapeSequence e => e.tokens
  | wordCharacterSet s => s.tokens
  | gap g => g.tokens

def Sigil.text (s : Sigil) : String := joinText s.tokens

def Node.text (n : Node) : String := joinText n.tokens

end RegexLiteral
