import RegexLiteral.Node.Basic

/-!
# Families of nodes

An element, and an element of a class, is a node of certain types. Each family goes into `Node`, and
a node comes back out of it if its type belongs to the family. A bare escape sequence belongs to
both families: it is taken as the character that it stands for.
-/

namespace RegexLiteral

def Atom.toNode : Atom → Node
  | character c => .character c
  | characterClass c => .characterClass c
  | wordCharacterSet s => .wordCharacterSet s
  | gap g => .gap g

def Element.toNode : Element → Node
  | atom a => a.toNode
  | quantifier q => .quantifier q

def ClassElement.toNode : ClassElement → Node
  | character c => .character c
  | range r => .characterClassRange r
  | wordCharacterSet s => .wordCharacterSet s

namespace Node

def element? : Node → Option Element
  | character c => some (.atom (.character c))
  | escapeSequence e => some (.atom (.character (.escaped e)))
  | characterClass c => some (.atom (.characterClass c))
  | quantifier q => some (.quantifier q)
  | wordCharacterSet s => some (.atom (.wordCharacterSet s))
  | gap g => some (.atom (.gap g))
  | _ => none

def classElement? : Node → Option ClassElement
  | character c => some (.character c)
  | escapeSequence e => some (.character (.escaped e))
  | characterClassRange r => some (.range r)
  | wordCharacterSet s => some (.wordCharacterSet s)
  | _ => none

def flags? : Node → Option Flags
  | flags f => some f
  | _ => none

def pattern? : Node → Option Pattern
  | pattern p => some p
  | _ => none

end Node

theorem Element.element?_toNode (e : Element) : e.toNode.element? = some e := by
  rcases e with (_ | _ | _ | _) | _ <;> rfl

theorem ClassElement.classElement?_toNode (e : ClassElement) : e.toNode.classElement? = some e := by
  cases e <;> rfl

end RegexLiteral
