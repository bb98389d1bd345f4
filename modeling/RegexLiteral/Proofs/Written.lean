import RegexLiteral.Parse.Literal
import RegexLiteral.Proofs.Item

/-!
# Written literals

The grammar of literals, given by its derivations. A derivation groups the items of a source: it has
the items that it is written with (`items`) and the node that it stands for (`tree`). A pattern is
a row of alternatives, an alternative a row of elements, an element an atom that a sigil may follow.
The types hold what the grammar allows. One rule looks at what follows: a brace is literal only if
no complete sigil begins with it, so no element of an alternative may begin with one (`Fits`).
-/

namespace RegexLiteral

def Character.ofChar (c : Char) : Character := .literal (.ofChar .character c)

def EscapeSequence.ofCode (code : Char) : EscapeSequence :=
  ⟨decode code, (Token.ofChar .punctuator '\\').startingSpan .escape,
    (Token.ofChar .keyword code).endingSpan .escape⟩

def Character.ofCode (code : Char) : Character := .escaped (.ofCode code)

def WordCharacterSet.ofCode (code : Char) : WordCharacterSet :=
  ⟨.ofChar .punctuator '\\', .ofChar .keyword code⟩

def Gap.ofCode (code : Char) : Gap := ⟨.ofChar .punctuator '\\', .ofChar .keyword code⟩

namespace Written

/-! ## Classes -/

/-- What stands between the brackets of a class, read one by one: a character, a backslash and
the character behind it, or an embedded node. -/
inductive ClassAtom
  | char (c : Char) (bare : c ≠ ']' ∧ c ≠ '\\')
  | pair (code : Char)
  | node (n : Node) (element : ClassElement) (taken : n.classElement? = some element)

namespace ClassAtom

def items : ClassAtom → List Item
  | char c _ => [.char c]
  | pair code => [.char '\\', .char code]
  | node n _ _ => [.node n]

/-- The element that the atom is by itself. -/
def element : ClassAtom → ClassElement
  | char c _ => .character (.ofChar c)
  | pair code =>
    if Parser.isWordCode code then .wordCharacterSet (.ofCode code) else .character (.ofCode code)
  | node _ e _ => e

/-- The atom as an end of a range. -/
def character? (a : ClassAtom) : Option Character :=
  match a.element with
  | .character c => some c
  | _ => none

theorem element_eq {a : ClassAtom} {r : Character} (h : a.character? = some r) :
    a.element = .character r := by
  unfold character? at h
  split at h
  · rename_i c hc
    rw [hc, Option.some.inj h]
  · cases h

def isMinus : ClassAtom → Bool
  | char c _ => c == '-'
  | _ => false

/-- The elements of a class, from left to right: two ends with a minus between them are a range,
and any other atom is an element by itself. -/
def elements : List ClassAtom → List ClassElement
  | [] => []
  | [a] => [a.element]
  | [a, b] => [a.element, b.element]
  | a :: b :: c :: rest =>
    match a.character?, b.isMinus, c.character? with
    | some min, true, some max => .range ⟨min, .ofChar .punctuator '-', max⟩ :: elements rest
    | _, _, _ => a.element :: elements (b :: c :: rest)

/-- The caret that a negated class begins with, and what follows it. -/
def negation : List ClassAtom → Option Token × List ClassAtom
  | body@(char c _ :: rest) =>
    if c = '^' then (some (.ofChar .punctuator '^'), rest) else (none, body)
  | body => (none, body)

theorem mem_of_mem_negation {body : List ClassAtom} {a : ClassAtom} (h : a ∈ (negation body).2) :
    a ∈ body := by
  unfold negation at h
  split at h
  · split at h
    · exact List.mem_cons_of_mem _ h
    · exact h
  · exact h

/-- The class with this body. -/
def charClass (body : List ClassAtom) : CharacterClass :=
  ⟨(Token.ofChar .punctuator '[').opening ']' .characterClass, (negation body).1,
    elements (negation body).2, (Token.ofChar .punctuator ']').balancing⟩

end ClassAtom

/-! ## Atoms -/

/-- The characters that are no atom by themselves. -/
def reserved : List Char := ['/', '|', '\\', '[', '+', '*', '?']

inductive Atom
  | literal (c : Char) (bare : c ∉ reserved)
  | pair (code : Char)
  | charClass (body : List ClassAtom)
  | node (n : Node) (atom : RegexLiteral.Atom) (taken : n.element? = some (.atom atom))

namespace Atom

def items : Atom → List Item
  | literal c _ => [.char c]
  | pair code => [.char '\\', .char code]
  | charClass body => .char '[' :: body.flatMap ClassAtom.items ++ [.char ']']
  | node n _ _ => [.node n]

def tree : Atom → RegexLiteral.Atom
  | literal c _ => .character (.ofChar c)
  | pair code =>
    if Parser.isWordCode code then .wordCharacterSet (.ofCode code)
    else if code = 'g' then .gap (.ofCode code)
    else .character (.ofCode code)
  | charClass body => .characterClass (ClassAtom.charClass body)
  | node _ a _ => a

end Atom

/-! ## Sigils -/

/-- A run of digits whose value fits into 32 bits. -/
structure Number where
  digits : List Char
  value : Nat
  reads : Text.readNumber? (String.ofList digits) = some value

namespace Number

def items (n : Number) : List Item := n.digits.map .char

def token (n : Number) : Token := .plain .character (String.ofList n.digits)

end Number

inductive Sigil
  | plus
  | star
  | question
  | exactly (n : Number)
  | atLeast (n : Number)
  | between (min max : Number) (ordered : min.value ≤ max.value)

namespace Sigil

def items : Sigil → List Item
  | plus => [.char '+']
  | star => [.char '*']
  | question => [.char '?']
  | exactly n => .char '\x7b' :: n.items ++ [.char '\x7d']
  | atLeast n => .char '\x7b' :: n.items ++ [.char ',', .char '\x7d']
  | between min max _ =>
    .char '\x7b' :: min.items ++ .char ',' :: max.items ++ [.char '\x7d']

def openBrace : Token := (Token.ofChar .punctuator '\x7b').opening '\x7d' .quantifier

def closeBrace : Token := (Token.ofChar .punctuator '\x7d').balancing

def comma : Token := .ofChar .punctuator ','

def tree : Sigil → RegexLiteral.Sigil
  | plus => .token (.ofChar .keyword '+')
  | star => .token (.ofChar .keyword '*')
  | question => .token (.ofChar .keyword '?')
  | exactly n => .braces ⟨openBrace, n.token, none, none, closeBrace⟩
  | atLeast n => .braces ⟨openBrace, n.token, some comma, none, closeBrace⟩
  | between min max _ => .braces ⟨openBrace, min.token, some comma, some max.token, closeBrace⟩

def min : Sigil → Nat
  | plus => 1
  | star | question => 0
  | exactly n | atLeast n => n.value
  | between min _ _ => min.value

def max : Sigil → Bound
  | plus | star | atLeast _ => .infinite
  | question => .finite 1
  | exactly n => .finite n.value
  | between _ max _ => .finite max.value

end Sigil

/-- A sigil between braces, whatever its numbers: `{D+}`, `{D+,}` or `{D+,D+}` for digits `D`. -/
inductive BraceForm : List Char → Prop
  | exactly {ds : List Char} (h : ds ≠ []) (hd : ∀ d ∈ ds, Text.isDigit d) :
    BraceForm ('\x7b' :: ds ++ ['\x7d'])
  | atLeast {ds : List Char} (h : ds ≠ []) (hd : ∀ d ∈ ds, Text.isDigit d) :
    BraceForm ('\x7b' :: ds ++ [',', '\x7d'])
  | between {ds es : List Char} (h : ds ≠ []) (hd : ∀ d ∈ ds, Text.isDigit d) (h' : es ≠ [])
    (he : ∀ e ∈ es, Text.isDigit e) : BraceForm ('\x7b' :: ds ++ ',' :: es ++ ['\x7d'])

/-- A complete sigil between braces begins here. -/
def OpensBraces (is : List Item) : Prop := ∃ cs, BraceForm cs ∧ cs.map .char <+: is

/-! ## Alternatives -/

inductive Element
  | atom (a : Atom)
  | repeated (a : Atom) (s : Sigil)
  /-- An embedded quantifier, which cannot be repeated again. -/
  | quantifier (q : Quantifier)

namespace Element

def items : Element → List Item
  | atom a => a.items
  | repeated a s => a.items ++ s.items
  | quantifier q => [.node (.quantifier q)]

def tree : Element → RegexLiteral.Element
  | atom a => .atom a.tree
  | repeated a s => .quantifier ⟨a.tree, s.tree, s.min, s.max⟩
  | quantifier q => .quantifier q

end Element

/-- No element begins with a sigil between braces. -/
def Fits : List Element → Prop
  | [] => True
  | e :: es => ¬ OpensBraces (e.items ++ es.flatMap Element.items) ∧ Fits es

structure Alternative where
  elements : List Element
  fits : Fits elements

namespace Alternative

def items (a : Alternative) : List Item := a.elements.flatMap Element.items

def tree (a : Alternative) : RegexLiteral.Alternative := ⟨a.elements.map Element.tree⟩

end Alternative

/-! ## Literals -/

inductive Flags
  | letters (flags : List Flag) (distinct : flags.Nodup)
  | node (f : RegexLiteral.Flags)

namespace Flags

def items : Flags → List Item
  | letters fs _ => fs.map fun f => .char f.letter
  | node f => [.node (.flags f)]

def tree : Flags → RegexLiteral.Flags
  | letters fs _ => ⟨fs.foldl FlagSet.insert .none, fs.map fun f => .ofChar .keyword f.letter⟩
  | node f => f

end Flags

structure Pattern where
  first : Alternative
  rest : List Alternative
  flags : Flags

namespace Pattern

def items (p : Pattern) : List Item :=
  .char '/' :: p.first.items ++ p.rest.flatMap (fun a => .char '|' :: a.items)
    ++ .char '/' :: p.flags.items

def tree (p : Pattern) : RegexLiteral.Pattern where
  openToken := (Token.ofChar .punctuator '/').opening '/' .pattern
  first := p.first.tree
  rest := p.rest.map fun a => (.ofChar .punctuator '|', a.tree)
  closeToken := (Token.ofChar .punctuator '/').balancing
  flags := p.flags.tree

end Pattern

end Written

/-- A whole input, as a literal or as flags alone. -/
inductive Written
  | pattern (p : Written.Pattern)
  | flags (f : Written.Flags)

namespace Written

def production : Written → Production
  | pattern _ => .pattern
  | flags _ => .flags

def items : Written → List Item
  | pattern p => p.items
  | flags f => f.items

def tree : Written → Node
  | pattern p => .pattern p.tree
  | flags f => .flags f.tree

end Written

end RegexLiteral
