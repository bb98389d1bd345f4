import RegexLiteral.Kind
import RegexLiteral.Node.Text

/-!
# Events of an outline

An outline forgets the node types and their named places and keeps kinds, nesting and text. A node
is told as a row of events: it starts, its tokens and inner nodes follow in the order of the
source, and it finishes. The alternatives of sum types have no entry of their own, and braces have
one although they are no node.
-/

namespace RegexLiteral

inductive OutlineEvent
  | start (kind : Kind)
  | token (kind : Kind) (text : String)
  | finish
deriving DecidableEq

/-- The kind of a token in an outline. -/
def Category.kind : Category → Kind
  | punctuator => .punctuatorToken
  | keyword => .keywordToken
  | character => .characterToken

/-- The kind of a node in an outline. -/
def NodeType.kind : NodeType → Kind
  | pattern => .pattern
  | alternative => .alternative
  | character => .character
  | characterClass => .characterClass
  | characterClassRange => .characterClassRange
  | quantifier => .quantifier
  | flags => .flags
  | escapeSequence => .escapeSequence
  | wordCharacterSet => .wordCharacterSet
  | gap => .gap

namespace OutlineEvent

/-- `content` as the inside of one entry. -/
def within (kind : Kind) (content : List OutlineEvent) : List OutlineEvent :=
  start kind :: content ++ [finish]

end OutlineEvent

def Token.event (t : Token) : OutlineEvent := .token t.category.kind t.text

def EscapeSequence.events (e : EscapeSequence) : List OutlineEvent :=
  OutlineEvent.within .escapeSequence [e.escape.event, e.code.event]

def Character.events : Character → List OutlineEvent
  | literal token => OutlineEvent.within .character [token.event]
  | escaped e => OutlineEvent.within .character e.events

def WordCharacterSet.events (s : WordCharacterSet) : List OutlineEvent :=
  OutlineEvent.within .wordCharacterSet [s.escapeToken.event, s.value.event]

def Gap.events (g : Gap) : List OutlineEvent :=
  OutlineEvent.within .gap [g.escapeToken.event, g.value.event]

def CharacterClassRange.events (r : CharacterClassRange) : List OutlineEvent :=
  OutlineEvent.within .characterClassRange (r.min.events ++ r.sigilToken.event :: r.max.events)

def ClassElement.events : ClassElement → List OutlineEvent
  | character c => c.events
  | range r => r.events
  | wordCharacterSet s => s.events

def CharacterClass.events (c : CharacterClass) : List OutlineEvent :=
  OutlineEvent.within .characterClass
    (c.openToken.event :: c.negateToken.toList.map Token.event
      ++ c.elements.flatMap ClassElement.events ++ [c.closeToken.event])

def Braces.events (b : Braces) : List OutlineEvent :=
  OutlineEvent.within .braces
    (b.openToken.event :: b.minToken.event :: b.separatorToken.toList.map Token.event
      ++ b.maxToken.toList.map Token.event ++ [b.closeToken.event])

def Sigil.events : Sigil → List OutlineEvent
  | token t => [t.event]
  | braces b => b.events

def Atom.events : Atom → List OutlineEvent
  | character c => c.events
  | characterClass c => c.events
  | wordCharacterSet s => s.events
  | gap g => g.events

def Quantifier.events (q : Quantifier) : List OutlineEvent :=
  OutlineEvent.within .quantifier (q.atom.events ++ q.sigil.events)

def Element.events : Element → List OutlineEvent
  | atom a => a.events
  | quantifier q => q.events

def Alternative.events (a : Alternative) : List OutlineEvent :=
  OutlineEvent.within .alternative (a.elements.flatMap Element.events)

def Flags.events (f : Flags) : List OutlineEvent :=
  OutlineEvent.within .flags (f.tokens.map Token.event)

def Pattern.events (p : Pattern) : List OutlineEvent :=
  OutlineEvent.within .pattern
    (p.openToken.event :: p.first.events ++ p.rest.flatMap (fun r => r.1.event :: r.2.events)
      ++ p.closeToken.event :: p.flags.events)

def Node.events : Node → List OutlineEvent
  | pattern p => p.events
  | alternative a => a.events
  | character c => c.events
  | characterClass c => c.events
  | characterClassRange r => r.events
  | quantifier q => q.events
  | flags f => f.events
  | escapeSequence e => e.events
  | wordCharacterSet s => s.events
  | gap g => g.events

end RegexLiteral
