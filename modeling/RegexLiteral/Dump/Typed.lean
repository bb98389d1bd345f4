import RegexLiteral.Dump.Raw
import RegexLiteral.Node.Basic

/-!
# Dump of a typed tree

One line for each node or token, labelled with the place that holds it. A token is written with its
category, its text and all of its marks; a node with its type and the values that it stores beside
its parts. A place that holds nothing is `null`, or `[]` if it holds a list. A literal character is
written as its token. Together the lines tell all that the tree holds.
-/

namespace RegexLiteral

/-- A line without its end: how deep it lies, its label if it has one, and what stands there. -/
structure DumpLine where
  depth : Nat
  label : Option String
  content : String
deriving DecidableEq

def DumpLine.text (l : DumpLine) : String :=
  indentation l.depth
    ++ (match l.label with
      | none => ""
      | some label => label ++ ": ")
    ++ l.content ++ "\n"

def Text.dumpQuoted (s : String) : String := "\x27" ++ dumpQuoting.text s ++ "\x27"

def Text.dumpQuotedChar (c : Char) : String := dumpQuoted (String.singleton c)

namespace Token

def dumpMarks (t : Token) : String :=
  (match t.pairing with
    | none => ""
    | some p =>
      " balanced=" ++ Text.dumpQuotedChar p.closer ++ " balancedSpan=\x27" ++ p.span.name ++ "\x27")
    ++ (if t.isBalancer then " balancer" else "")
    ++ (match t.openSpan with
      | none => ""
      | some span => " openSpan=\x27" ++ span.name ++ "\x27")
    ++ (match t.closeSpan with
      | none => ""
      | some span => " closeSpan=\x27" ++ span.name ++ "\x27")

def dumpText (t : Token) : String :=
  "<" ++ t.category.name ++ " " ++ Text.dumpQuoted t.text ++ t.dumpMarks ++ ">"

def dump (depth : Nat) (label : Option String) (t : Token) : DumpLine :=
  ⟨depth, label, t.dumpText⟩

end Token

/-- A place that may hold a token. -/
def dumpOptional (depth : Nat) (label : String) : Option Token → DumpLine
  | none => ⟨depth, some label, "null"⟩
  | some t => t.dump depth (some label)

def indexed (label : String) (i : Nat) : String := label ++ "[" ++ toString i ++ "]"

/-- The members of a list from the index `i` on. -/
def dumpListFrom (dump : String → α → List DumpLine) (label : String) (i : Nat) :
    List α → List DumpLine
  | [] => []
  | a :: as => dump (indexed label i) a ++ dumpListFrom dump label (i + 1) as

def dumpList (depth : Nat) (dump : String → α → List DumpLine) (label : String)
    (as : List α) : List DumpLine :=
  match as with
  | [] => [⟨depth, some label, "[]"⟩]
  | _ :: _ => dumpListFrom dump label 0 as

/-- A word with a mark before it if it does not hold. -/
def switch (name : String) (on : Bool) : String := if on then name else "!" ++ name

def EscapeSequence.dump (depth : Nat) (label : Option String) (e : EscapeSequence) :
    List DumpLine :=
  [⟨depth, label, "EscapeSequence cooked=" ++ Text.dumpQuotedChar e.cooked⟩,
   e.escape.dump (depth + 1) (some "escape"),
   e.code.dump (depth + 1) (some "code")]

def Character.dump (depth : Nat) (label : Option String) : Character → List DumpLine
  | literal token => [token.dump depth label]
  | escaped e => ⟨depth, label, "Character"⟩ :: e.dump (depth + 1) (some "sequence")

def WordCharacterSet.dump (depth : Nat) (label : Option String) (s : WordCharacterSet) :
    List DumpLine :=
  [⟨depth, label, "WordCharacterSet " ++ switch "negate" s.isNegated⟩,
   s.escapeToken.dump (depth + 1) (some "escapeToken"),
   s.value.dump (depth + 1) (some "value")]

def Gap.dump (depth : Nat) (label : Option String) (g : Gap) : List DumpLine :=
  [⟨depth, label, "Gap"⟩,
   g.escapeToken.dump (depth + 1) (some "escapeToken"),
   g.value.dump (depth + 1) (some "value")]

def CharacterClassRange.dump (depth : Nat) (label : Option String) (r : CharacterClassRange) :
    List DumpLine :=
  ⟨depth, label, "CharacterClassRange"⟩ :: r.min.dump (depth + 1) (some "min")
    ++ r.sigilToken.dump (depth + 1) (some "sigilToken") :: r.max.dump (depth + 1) (some "max")

def ClassElement.dump (depth : Nat) (label : Option String) : ClassElement → List DumpLine
  | character c => c.dump depth label
  | range r => r.dump depth label
  | wordCharacterSet s => s.dump depth label

def CharacterClass.dump (depth : Nat) (label : Option String) (c : CharacterClass) :
    List DumpLine :=
  ⟨depth, label, "CharacterClass " ++ switch "negate" c.isNegated⟩
    :: c.openToken.dump (depth + 1) (some "openToken")
    :: dumpOptional (depth + 1) "negateToken" c.negateToken
    :: dumpList (depth + 1) (fun label e => e.dump (depth + 1) (some label)) "elements" c.elements
    ++ [c.closeToken.dump (depth + 1) (some "closeToken")]

def Braces.dump (depth : Nat) (label : Option String) (b : Braces) : List DumpLine :=
  [⟨depth, label, "Braces"⟩,
   b.openToken.dump (depth + 1) (some "openToken"),
   b.minToken.dump (depth + 1) (some "minToken"),
   dumpOptional (depth + 1) "separatorToken" b.separatorToken,
   dumpOptional (depth + 1) "maxToken" b.maxToken,
   b.closeToken.dump (depth + 1) (some "closeToken")]

def Sigil.dump (depth : Nat) : Sigil → List DumpLine
  | token t => [t.dump depth (some "sigilToken")]
  | braces b => b.dump depth (some "sigil")

def Atom.dump (depth : Nat) (label : Option String) : Atom → List DumpLine
  | character c => c.dump depth label
  | characterClass c => c.dump depth label
  | wordCharacterSet s => s.dump depth label
  | gap g => g.dump depth label

def Quantifier.dump (depth : Nat) (label : Option String) (q : Quantifier) : List DumpLine :=
  ⟨depth, label, "Quantifier min=" ++ toString q.min ++ " max=" ++ q.max.text⟩
    :: q.atom.dump (depth + 1) (some "element") ++ q.sigil.dump (depth + 1)

def Element.dump (depth : Nat) (label : Option String) : Element → List DumpLine
  | atom a => a.dump depth label
  | quantifier q => q.dump depth label

def Alternative.dump (depth : Nat) (label : Option String) (a : Alternative) : List DumpLine :=
  ⟨depth, label, "Alternative"⟩
    :: dumpList (depth + 1) (fun label e => e.dump (depth + 1) (some label)) "elements" a.elements

def Flags.dump (depth : Nat) (label : Option String) (f : Flags) : List DumpLine :=
  ⟨depth, label, "Flags" ++ String.join (Flag.all.map fun flag =>
      " " ++ switch flag.name (f.set.has flag))⟩
    :: dumpList (depth + 1) (fun label t => [t.dump (depth + 1) (some label)]) "tokens" f.tokens

namespace Pattern

/-- Each separator, followed by its alternative, which has the next higher index. -/
def dumpRest (depth i : Nat) : List (Token × Alternative) → List DumpLine
  | [] => []
  | (separator, a) :: more =>
    separator.dump depth (some (indexed "separatorTokens" i))
      :: a.dump depth (some (indexed "alternatives" (i + 1))) ++ dumpRest depth (i + 1) more

def dump (depth : Nat) (label : Option String) (p : Pattern) : List DumpLine :=
  ⟨depth, label, "Pattern"⟩
    :: p.openToken.dump (depth + 1) (some "openToken")
    :: p.first.dump (depth + 1) (some (indexed "alternatives" 0))
    ++ dumpRest (depth + 1) 0 p.rest
    ++ (match p.rest with
      | [] => [⟨depth + 1, some "separatorTokens", "[]"⟩]
      | _ :: _ => [])
    ++ p.closeToken.dump (depth + 1) (some "closeToken")
    :: p.flags.dump (depth + 1) (some "flags")

end Pattern

namespace Node

def dumpLines : Node → List DumpLine
  | pattern p => p.dump 0 none
  | alternative a => a.dump 0 none
  | character c => c.dump 0 none
  | characterClass c => c.dump 0 none
  | characterClassRange r => r.dump 0 none
  | quantifier q => q.dump 0 none
  | flags f => f.dump 0 none
  | escapeSequence e => e.dump 0 none
  | wordCharacterSet s => s.dump 0 none
  | gap g => g.dump 0 none

def dump (n : Node) : String := String.join (n.dumpLines.map DumpLine.text)

end Node

end RegexLiteral
