import RegexLiteral.Json.Basic
import RegexLiteral.Node.Basic

/-!
# Trees as JSON

A structure is an object of its fields, and a sum an object of one member, named for the variant. In
a token the marks that are not set are left out; elsewhere a part that is missing is `null`.
-/

namespace RegexLiteral

def Category.toJson (c : Category) : Json := .string c.name

def SpanName.toJson (s : SpanName) : Json := .string s.name

def NodeType.toJson (t : NodeType) : Json := .string t.name

def Flag.toJson (f : Flag) : Json := .string f.name

/-- The member `key`, if there is a value for it. -/
def optionalMember (key : String) : Option Json → List (String × Json)
  | none => []
  | some j => [(key, j)]

def Token.toJson (t : Token) : Json :=
  .object
    (optionalMember "balanced" (t.pairing.map fun p => .ofChar p.closer)
      ++ optionalMember "balancedSpan" (t.pairing.map fun p => p.span.toJson)
      ++ optionalMember "balancer" (if t.isBalancer then some (.bool true) else none)
      ++ [("category", t.category.toJson)]
      ++ optionalMember "closeSpan" (t.closeSpan.map SpanName.toJson)
      ++ optionalMember "openSpan" (t.openSpan.map SpanName.toJson)
      ++ [("text", .string t.text)])

def EscapeSequence.toJson (e : EscapeSequence) : Json :=
  .object [("code", e.code.toJson), ("cooked", .ofChar e.cooked), ("escape", e.escape.toJson)]

def Character.toJson : Character → Json
  | literal token => .variant "Literal" token.toJson
  | escaped e => .variant "Escaped" e.toJson

def WordCharacterSet.toJson (s : WordCharacterSet) : Json :=
  .object [("escapeToken", s.escapeToken.toJson), ("value", s.value.toJson)]

def Gap.toJson (g : Gap) : Json :=
  .object [("escapeToken", g.escapeToken.toJson), ("value", g.value.toJson)]

def CharacterClassRange.toJson (r : CharacterClassRange) : Json :=
  .object [("max", r.max.toJson), ("min", r.min.toJson), ("sigilToken", r.sigilToken.toJson)]

def ClassElement.toJson : ClassElement → Json
  | character c => .variant "Character" c.toJson
  | range r => .variant "Range" r.toJson
  | wordCharacterSet s => .variant "WordCharacterSet" s.toJson

def CharacterClass.toJson (c : CharacterClass) : Json :=
  .object [("closeToken", c.closeToken.toJson),
    ("elements", .ofList ClassElement.toJson c.elements),
    ("negateToken", .ofOption Token.toJson c.negateToken),
    ("openToken", c.openToken.toJson)]

def Bound.toJson : Bound → Json
  | finite n => .variant "Finite" (.number n)
  | infinite => .string "Infinite"

def Braces.toJson (b : Braces) : Json :=
  .object [("closeToken", b.closeToken.toJson),
    ("maxToken", .ofOption Token.toJson b.maxToken),
    ("minToken", b.minToken.toJson),
    ("openToken", b.openToken.toJson),
    ("separatorToken", .ofOption Token.toJson b.separatorToken)]

def Sigil.toJson : Sigil → Json
  | token t => .variant "Token" t.toJson
  | braces b => .variant "Braces" b.toJson

def Atom.toJson : Atom → Json
  | character c => .variant "Character" c.toJson
  | characterClass c => .variant "CharacterClass" c.toJson
  | wordCharacterSet s => .variant "WordCharacterSet" s.toJson
  | gap g => .variant "Gap" g.toJson

def Quantifier.toJson (q : Quantifier) : Json :=
  .object [("element", q.atom.toJson), ("max", q.max.toJson), ("min", .number q.min),
    ("sigil", q.sigil.toJson)]

def Element.toJson : Element → Json
  | atom a => a.toJson
  | quantifier q => .variant "Quantifier" q.toJson

def Alternative.toJson (a : Alternative) : Json :=
  .object [("elements", .ofList Element.toJson a.elements)]

def Flags.toJson (f : Flags) : Json :=
  .object [("dotAll", .bool f.set.dotAll), ("global", .bool f.set.global),
    ("ignoreCase", .bool f.set.ignoreCase), ("multiline", .bool f.set.multiline),
    ("sticky", .bool f.set.sticky), ("tokens", .ofList Token.toJson f.tokens),
    ("unicode", .bool f.set.unicode)]

def Pattern.toJson (p : Pattern) : Json :=
  .object [("alternatives", .ofList Alternative.toJson p.alternatives),
    ("closeToken", p.closeToken.toJson),
    ("flags", p.flags.toJson),
    ("openToken", p.openToken.toJson),
    ("separatorTokens", .ofList Token.toJson p.separatorTokens)]

def Node.toJson : Node → Json
  | pattern p => .variant "Pattern" p.toJson
  | alternative a => .variant "Alternative" a.toJson
  | character c => .variant "Character" c.toJson
  | characterClass c => .variant "CharacterClass" c.toJson
  | characterClassRange r => .variant "CharacterClassRange" r.toJson
  | quantifier q => .variant "Quantifier" q.toJson
  | flags f => .variant "Flags" f.toJson
  | escapeSequence e => .variant "EscapeSequence" e.toJson
  | wordCharacterSet s => .variant "WordCharacterSet" s.toJson
  | gap g => .variant "Gap" g.toJson

end RegexLiteral
