import RegexLiteral.Outline.Event
import RegexLiteral.Proofs.Outline.Forest

/-!
# The parts of a node

A part of a node is a sub-node, or the braces of a sigil. The parts are listed by walking through
the typed tree (`Node.places`): each node comes before what it is made of, with its depth and the
tokens that stand before it in the text of the whole node.
-/

namespace RegexLiteral

inductive Part
  | node (n : Node)
  | braces (b : Braces)
deriving DecidableEq

namespace Part

def tokens : Part → List Token
  | node n => n.tokens
  | braces b => b.tokens

def kind : Part → Kind
  | node n => n.type.kind
  | braces _ => .braces

end Part

structure Part.Place where
  depth : Nat
  /-- The tokens of the whole that come before the part. -/
  before : List Token
  part : Part
deriving DecidableEq

namespace Part.Place

/-- The entry that an outline should have for the part. -/
def entry (p : Part.Place) : OutlineEntry where
  depth := p.depth
  kind := p.part.kind
  span := ⟨width p.before, width (p.before ++ p.part.tokens)⟩
  text := joinText p.part.tokens

/-- The parts in a row of things that stand one behind another. -/
def inRow {α : Type} (places : Nat → List Token → α → List Part.Place) (tokens : α → List Token)
    (depth : Nat) : List Token → List α → List Part.Place
  | _, [] => []
  | before, a :: as =>
    places depth before a ++ inRow places tokens depth (before ++ tokens a) as

end Part.Place

section Places

variable (depth : Nat) (before : List Token)

def EscapeSequence.places (e : EscapeSequence) : List Part.Place :=
  [⟨depth, before, .node (.escapeSequence e)⟩]

def Character.innerPlaces : Character → List Part.Place
  | literal _ => []
  | escaped e => e.places depth before

def Character.places (c : Character) : List Part.Place :=
  ⟨depth, before, .node (.character c)⟩ :: c.innerPlaces (depth + 1) before

def WordCharacterSet.places (s : WordCharacterSet) : List Part.Place :=
  [⟨depth, before, .node (.wordCharacterSet s)⟩]

def Gap.places (g : Gap) : List Part.Place := [⟨depth, before, .node (.gap g)⟩]

def CharacterClassRange.places (r : CharacterClassRange) : List Part.Place :=
  ⟨depth, before, .node (.characterClassRange r)⟩
    :: r.min.places (depth + 1) before
    ++ r.max.places (depth + 1) (before ++ r.min.tokens ++ [r.sigilToken])

def ClassElement.places : ClassElement → List Part.Place
  | character c => c.places depth before
  | range r => r.places depth before
  | wordCharacterSet s => s.places depth before

def CharacterClass.places (c : CharacterClass) : List Part.Place :=
  ⟨depth, before, .node (.characterClass c)⟩
    :: Part.Place.inRow ClassElement.places ClassElement.tokens (depth + 1)
      (before ++ [c.openToken] ++ c.negateToken.toList) c.elements

def Sigil.places : Sigil → List Part.Place
  | token _ => []
  | braces b => [⟨depth, before, .braces b⟩]

def Atom.places : Atom → List Part.Place
  | character c => c.places depth before
  | characterClass c => c.places depth before
  | wordCharacterSet s => s.places depth before
  | gap g => g.places depth before

def Quantifier.places (q : Quantifier) : List Part.Place :=
  ⟨depth, before, .node (.quantifier q)⟩
    :: q.atom.places (depth + 1) before ++ q.sigil.places (depth + 1) (before ++ q.atom.tokens)

def Element.places : Element → List Part.Place
  | atom a => a.places depth before
  | quantifier q => q.places depth before

def Alternative.places (a : Alternative) : List Part.Place :=
  ⟨depth, before, .node (.alternative a)⟩
    :: Part.Place.inRow Element.places Element.tokens (depth + 1) before a.elements

def Flags.places (f : Flags) : List Part.Place := [⟨depth, before, .node (.flags f)⟩]

/-- The parts of an alternative behind its separator. -/
def Alternative.placesBehind (r : Token × Alternative) : List Part.Place :=
  r.2.places depth (before ++ [r.1])

def Pattern.places (p : Pattern) : List Part.Place :=
  let first := before ++ [p.openToken]
  let rest := first ++ p.first.tokens
  let flags := rest ++ p.rest.flatMap (fun r => r.1 :: r.2.tokens) ++ [p.closeToken]
  ⟨depth, before, .node (.pattern p)⟩
    :: p.first.places (depth + 1) first
    ++ Part.Place.inRow Alternative.placesBehind (fun r => r.1 :: r.2.tokens) (depth + 1) rest
      p.rest
    ++ p.flags.places (depth + 1) flags

end Places

/-- All parts of a node, the node itself among them. -/
def Node.places : Node → List Part.Place
  | pattern p => p.places 0 []
  | alternative a => a.places 0 []
  | character c => c.places 0 []
  | characterClass c => c.places 0 []
  | characterClassRange r => r.places 0 []
  | quantifier q => q.places 0 []
  | flags f => f.places 0 []
  | escapeSequence e => e.places 0 []
  | wordCharacterSet s => s.places 0 []
  | gap g => g.places 0 []

end RegexLiteral
