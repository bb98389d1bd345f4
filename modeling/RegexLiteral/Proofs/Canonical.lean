import RegexLiteral.Proofs.Grammar
import RegexLiteral.Proofs.SoundKept

/-!
# Canonical trees

Every token that the parser makes has a role, and the role alone fixes the category and the marks of
the token (`TokenRole.marks`): what a token reads does not, since a minus is a sigil in one place
and a literal in another. A tree is canonical if all its tokens play the roles of their places and
if its escapes decode, and belong, where they stand.

The nodes that were put into a tree are left out. `Canonical ns a` says that `a` is canonical but
for the nodes `ns`, which stand in it one after another in the order of the source, so of a tree
that was read from a plain source it speaks with no node left out.
-/

namespace RegexLiteral

/-! ## Roles -/

/-- What a token carries beside its text. -/
structure Marks where
  category : Category
  pairing : Option Pairing
  isBalancer : Bool
  openSpan : Option SpanName
  closeSpan : Option SpanName
deriving DecidableEq

def Token.marks (t : Token) : Marks :=
  ⟨t.category, t.pairing, t.isBalancer, t.openSpan, t.closeSpan⟩

inductive TokenRole
  | patternOpen
  | patternClose
  | separator
  | classOpen
  | classClose
  | negation
  | rangeSigil
  | braceOpen
  | braceClose
  | comma
  | literal
  | number
  /-- The backslash of an escaped character. -/
  | escape
  | code
  /-- The backslash of a word set or a gap. -/
  | bareEscape
  | wordCode
  | gapCode
  | sign
  | flag
deriving DecidableEq

namespace TokenRole

def marks : TokenRole → Marks
  | patternOpen => ⟨.punctuator, some ⟨'/', .pattern⟩, false, none, none⟩
  | classOpen => ⟨.punctuator, some ⟨']', .characterClass⟩, false, none, none⟩
  | braceOpen => ⟨.punctuator, some ⟨'\x7d', .quantifier⟩, false, none, none⟩
  | patternClose | classClose | braceClose => ⟨.punctuator, none, true, none, none⟩
  | separator | negation | rangeSigil | comma | bareEscape => ⟨.punctuator, none, false, none, none⟩
  | literal | number => ⟨.character, none, false, none, none⟩
  | escape => ⟨.punctuator, none, false, some .escape, none⟩
  | code => ⟨.keyword, none, false, none, some .escape⟩
  | wordCode | gapCode | sign | flag => ⟨.keyword, none, false, none, none⟩

/-- What a token can read in the role. -/
def Reads : TokenRole → List Char → Prop
  | patternOpen, cs | patternClose, cs => cs = ['/']
  | separator, cs => cs = ['|']
  | classOpen, cs => cs = ['[']
  | classClose, cs => cs = [']']
  | negation, cs => cs = ['^']
  | rangeSigil, cs => cs = ['-']
  | braceOpen, cs => cs = ['\x7b']
  | braceClose, cs => cs = ['\x7d']
  | comma, cs => cs = [',']
  | literal, cs => ∃ c, cs = [c]
  | number, cs => cs ≠ [] ∧ ∀ c ∈ cs, Text.isDigit c
  | escape, cs | bareEscape, cs => cs = ['\\']
  | code, cs => ∃ c, cs = [c] ∧ c ≠ 'w' ∧ c ≠ 'W'
  | wordCode, cs => cs = ['w'] ∨ cs = ['W']
  | gapCode, cs => cs = ['g']
  | sign, cs => ∃ c ∈ ['+', '*', '?'], cs = [c]
  | flag, cs => ∃ f : Flag, cs = [f.letter]

end TokenRole

/-- The token has the category and the marks of the role, and no others, and reads what it may. -/
structure Token.Plays (t : Token) (r : TokenRole) : Prop where
  marks : t.marks = r.marks
  reads : r.Reads t.text.toList

/-! ## Canonical trees -/

/-- A property of a part of a tree and the nodes that were put into it. -/
abbrev ButFor (α : Type) := List Node → α → Prop

/-- The parts of a row, each with the nodes that were put into it. -/
inductive ButFor.Row {α : Type} (R : ButFor α) : ButFor (List α)
  | nil : Row R [] []
  | cons {ns ns' : List Node} {a : α} {as : List α} (h : R ns a) (hs : Row R ns' as) :
    Row R (ns ++ ns') (a :: as)

/-- The code names the character that the escape stands for. With the code `g` that is a letter in
a class only; elsewhere it is a gap. -/
structure EscapeSequence.Canonical (inClass : Bool) (e : EscapeSequence) : Prop where
  escape : e.escape.Plays .escape
  code : e.code.Plays .code
  cooked : ∃ c, e.code.text.toList = [c] ∧ e.cooked = decode c ∧ (c = 'g' → inClass = true)

def Character.Canonical (inClass : Bool) : Character → Prop
  | literal t => t.Plays .literal
  | escaped e => e.Canonical inClass

structure WordCharacterSet.Canonical (s : WordCharacterSet) : Prop where
  escape : s.escapeToken.Plays .bareEscape
  value : s.value.Plays .wordCode

structure Gap.Canonical (g : Gap) : Prop where
  escape : g.escapeToken.Plays .bareEscape
  value : g.value.Plays .gapCode

inductive ClassElement.Canonical : ButFor ClassElement
  | character {c : Character} (h : c.Canonical true) : Canonical [] (.character c)
  | wordCharacterSet {s : WordCharacterSet} (h : s.Canonical) : Canonical [] (.wordCharacterSet s)
  | range {ns ns' : List Node} {min max : Character} {sigil : Token}
    (hmin : Canonical ns (.character min)) (hsigil : sigil.Plays .rangeSigil)
    (hmax : Canonical ns' (.character max)) : Canonical (ns ++ ns') (.range ⟨min, sigil, max⟩)
  | spliced {n : Node} {e : ClassElement} (h : n.classElement? = some e) : Canonical [n] e

structure CharacterClass.Canonical (ns : List Node) (c : CharacterClass) : Prop where
  opens : c.openToken.Plays .classOpen
  negates : ∀ t ∈ c.negateToken, t.Plays .negation
  elements : ButFor.Row ClassElement.Canonical ns c.elements
  closes : c.closeToken.Plays .classClose

inductive Atom.Canonical : ButFor Atom
  | character {c : Character} (h : c.Canonical false) : Canonical [] (.character c)
  | characterClass {ns : List Node} {c : CharacterClass} (h : c.Canonical ns) :
    Canonical ns (.characterClass c)
  | wordCharacterSet {s : WordCharacterSet} (h : s.Canonical) : Canonical [] (.wordCharacterSet s)
  | gap {g : Gap} (h : g.Canonical) : Canonical [] (.gap g)
  | spliced {n : Node} {a : Atom} (h : n.element? = some (.atom a)) : Canonical [n] a

structure Braces.Canonical (b : Braces) : Prop where
  opens : b.openToken.Plays .braceOpen
  min : b.minToken.Plays .number
  separates : ∀ t ∈ b.separatorToken, t.Plays .comma
  max : ∀ t ∈ b.maxToken, t.Plays .number
  closes : b.closeToken.Plays .braceClose

def Sigil.Canonical : Sigil → Prop
  | token t => t.Plays .sign
  | braces b => b.Canonical

inductive Element.Canonical : ButFor Element
  | atom {ns : List Node} {a : Atom} (h : Atom.Canonical ns a) : Canonical ns (.atom a)
  | quantifier {ns : List Node} {q : Quantifier} (h : Atom.Canonical ns q.atom)
    (hs : q.sigil.Canonical) : Canonical ns (.quantifier q)
  | spliced (q : Quantifier) : Canonical [.quantifier q] (.quantifier q)

def Alternative.Canonical : ButFor Alternative :=
  fun ns a => ButFor.Row Element.Canonical ns a.elements

/-- An alternative behind its separator. -/
structure Alternative.CanonicalBehind (ns : List Node) (r : Token × Alternative) : Prop where
  separates : r.1.Plays .separator
  alternative : Alternative.Canonical ns r.2

inductive Flags.Canonical : ButFor Flags
  | letters {f : Flags} (h : ∀ t ∈ f.tokens, t.Plays .flag) : Canonical [] f
  | spliced (f : Flags) : Canonical [.flags f] f

inductive Pattern.Canonical : ButFor Pattern
  | mk {ns ns' ns'' : List Node} {p : Pattern} (opens : p.openToken.Plays .patternOpen)
    (first : Alternative.Canonical ns p.first)
    (rest : ButFor.Row Alternative.CanonicalBehind ns' p.rest)
    (closes : p.closeToken.Plays .patternClose) (flags : Flags.Canonical ns'' p.flags) :
    Canonical (ns ++ (ns' ++ ns'')) p

/-- The two types of nodes that are read as a whole. -/
inductive Node.Canonical : ButFor Node
  | pattern {ns : List Node} {p : Pattern} (h : Pattern.Canonical ns p) : Canonical ns (.pattern p)
  | flags {ns : List Node} {f : Flags} (h : Flags.Canonical ns f) : Canonical ns (.flags f)

/-! ## What the parser makes -/

variable {c : Char}

theorem Token.plays_of_text {t : Token} {r : TokenRole} (ht : t.text = String.singleton c)
    (hm : t.marks = r.marks) (hr : r.Reads [c]) : t.Plays r := by
  refine ⟨hm, ?_⟩
  rw [ht, String.toList_singleton]
  exact hr

theorem Character.canonical_ofChar {inClass : Bool} : (ofChar c).Canonical inClass :=
  Token.plays_of_text rfl rfl ⟨c, rfl⟩

theorem EscapeSequence.canonical_ofCode {inClass : Bool} (hw : ¬ Parser.isWordCode c)
    (hg : c = 'g' → inClass = true) : (ofCode c).Canonical inClass where
  escape := Token.plays_of_text rfl rfl rfl
  code := by
    refine Token.plays_of_text rfl rfl ⟨c, rfl, ?_, ?_⟩ <;>
      · rintro rfl
        exact hw rfl
  cooked := ⟨c, Token.toList_text_ofChar .keyword c, rfl, hg⟩

theorem WordCharacterSet.canonical_ofCode (hw : Parser.isWordCode c) : (ofCode c).Canonical where
  escape := Token.plays_of_text rfl rfl rfl
  value := by
    unfold Parser.isWordCode at hw
    rw [Bool.or_eq_true, beq_iff_eq, beq_iff_eq] at hw
    exact Token.plays_of_text rfl rfl (hw.imp (fun h => by rw [h]) fun h => by rw [h])

theorem Gap.canonical_ofCode : (ofCode 'g').Canonical where
  escape := Token.plays_of_text rfl rfl rfl
  value := Token.plays_of_text rfl rfl rfl

@[simp] theorem filterMap_node?_char_cons (is : List Item) :
    (Item.char c :: is).filterMap Item.node? = is.filterMap Item.node? := rfl

/-- A row of derivations, each with the nodes among its items. -/
theorem ButFor.row_map {α β : Type} {R : ButFor α} (items : β → List Item) (tree : β → α)
    (h : ∀ b, R ((items b).filterMap Item.node?) (tree b)) (bs : List β) :
    Row R ((bs.flatMap items).filterMap Item.node?) (bs.map tree) := by
  induction bs with
  | nil => exact .nil
  | cons b bs ih =>
    rw [List.flatMap_cons, List.filterMap_append]
    exact .cons (h b) ih

namespace Written

namespace ClassAtom

theorem canonical_element (a : ClassAtom) :
    ClassElement.Canonical (a.items.filterMap Item.node?) a.element := by
  cases a with
  | char c _ => exact .character Character.canonical_ofChar
  | pair code =>
    rw [element]
    split
    · rename_i hw
      exact .wordCharacterSet (WordCharacterSet.canonical_ofCode hw)
    · rename_i hw
      exact .character (EscapeSequence.canonical_ofCode hw fun _ => rfl)
  | node n e he => exact .spliced he

theorem canonical_elements (as : List ClassAtom) :
    ButFor.Row ClassElement.Canonical ((as.flatMap items).filterMap Item.node?) (elements as) := by
  fun_induction elements as with
  | case1 => exact .nil
  | case2 a => simpa using ButFor.Row.cons a.canonical_element .nil
  | case3 a b =>
    simpa using ButFor.Row.cons a.canonical_element (.cons b.canonical_element .nil)
  | case4 a b c rest min max hmax hminus hmin ih =>
    have hmin := element_eq hmin ▸ a.canonical_element
    have hmax := element_eq hmax ▸ c.canonical_element
    have hsigil : (Token.ofChar .punctuator '-').Plays .rangeSigil :=
      Token.plays_of_text rfl rfl rfl
    have hrow := ButFor.Row.cons (.range hmin hsigil hmax) ih
    simpa [isMinus_iff.1 hminus] using hrow
  | case5 a b c rest hno ih =>
    rw [List.flatMap_cons, List.filterMap_append]
    exact .cons a.canonical_element ih

/-- The caret of a negated class is no node. -/
theorem nodes_negation (body : List ClassAtom) :
    ((negation body).2.flatMap items).filterMap Item.node?
      = (body.flatMap items).filterMap Item.node? := by
  rcases negation_cases body with ⟨h, rest, rfl⟩ | hnone
  · rw [negation_caret]
    rfl
  · rw [hnone]

theorem canonical_charClass (body : List ClassAtom) :
    (charClass body).Canonical ((body.flatMap items).filterMap Item.node?) where
  opens := Token.plays_of_text rfl rfl rfl
  negates t ht := by
    rw [negateToken_eq body t ht]
    exact Token.plays_of_text rfl rfl rfl
  elements := by
    rw [← nodes_negation]
    exact canonical_elements _
  closes := Token.plays_of_text rfl rfl rfl

end ClassAtom

theorem Atom.canonical (a : Atom) :
    Atom.Canonical (a.items.filterMap Item.node?) a.tree := by
  cases a with
  | literal c _ => exact .character Character.canonical_ofChar
  | pair code =>
    rw [tree]
    split
    · rename_i hw
      exact .wordCharacterSet (WordCharacterSet.canonical_ofCode hw)
    · rename_i hw
      split
      · rename_i hg
        rw [hg]
        exact .gap Gap.canonical_ofCode
      · rename_i hg
        exact .character (EscapeSequence.canonical_ofCode hw fun h => absurd h hg)
  | charClass body =>
    refine .characterClass ?_
    simpa [items] using ClassAtom.canonical_charClass body
  | node n a hn => exact .spliced hn

theorem Number.plays_token (n : Number) : n.token.Plays .number := by
  have htext : n.token.text.toList = n.digits := by simp [token, Token.plain]
  refine ⟨rfl, ?_⟩
  rw [htext]
  exact ⟨n.digits_ne_nil, n.isDigit_of_mem⟩

theorem Sigil.canonical (s : Sigil) : s.tree.Canonical := by
  have hopen : openBrace.Plays .braceOpen := Token.plays_of_text rfl rfl rfl
  have hclose : closeBrace.Plays .braceClose := Token.plays_of_text rfl rfl rfl
  have hcomma : ∀ t ∈ some comma, t.Plays .comma := by
    rintro _ ⟨⟩
    exact Token.plays_of_text rfl rfl rfl
  have hnone (r : TokenRole) : ∀ t ∈ (none : Option Token), t.Plays r := by simp
  cases s with
  | plus => exact Token.plays_of_text rfl rfl ⟨'+', by decide, rfl⟩
  | star => exact Token.plays_of_text rfl rfl ⟨'*', by decide, rfl⟩
  | question => exact Token.plays_of_text rfl rfl ⟨'?', by decide, rfl⟩
  | exactly n => exact ⟨hopen, n.plays_token, hnone _, hnone _, hclose⟩
  | atLeast n => exact ⟨hopen, n.plays_token, hcomma, hnone _, hclose⟩
  | between min max _ =>
    refine ⟨hopen, min.plays_token, hcomma, ?_, hclose⟩
    rintro _ ⟨⟩
    exact max.plays_token

theorem Sigil.nodes_items (s : Sigil) : s.items.filterMap Item.node? = [] := by
  cases s <;> simp [items, Number.items, -List.filterMap_map, filterMap_node?_map_char]

theorem Element.canonical (e : Element) :
    Element.Canonical (e.items.filterMap Item.node?) e.tree := by
  cases e with
  | atom a => exact .atom a.canonical
  | repeated a s =>
    rw [items, List.filterMap_append, s.nodes_items, List.append_nil]
    exact .quantifier a.canonical s.canonical
  | quantifier q => exact .spliced q

theorem Alternative.canonical (a : Alternative) :
    Alternative.Canonical (a.items.filterMap Item.node?) a.tree :=
  ButFor.row_map Element.items Element.tree Element.canonical a.elements

theorem Flags.canonical (f : Flags) : Flags.Canonical (f.items.filterMap Item.node?) f.tree := by
  cases f with
  | letters fs hnodup =>
    have hnodes : (fs.map fun f => Item.char f.letter).filterMap Item.node? = [] := by
      induction fs with
      | nil => rfl
      | cons f fs ih => exact ih hnodup.tail
    rw [items, hnodes]
    refine .letters fun t ht => ?_
    obtain ⟨f, -, rfl⟩ := List.mem_map.1 ht
    exact Token.plays_of_text rfl rfl ⟨f, rfl⟩
  | node f => exact .spliced f

theorem Pattern.canonical (p : Pattern) :
    Pattern.Canonical (p.items.filterMap Item.node?) p.tree := by
  have hrest := ButFor.row_map (R := Alternative.CanonicalBehind)
    (fun a : Alternative => .char '|' :: a.items)
    (fun a => (Token.ofChar .punctuator '|', a.tree))
    (fun a => ⟨Token.plays_of_text rfl rfl rfl, a.canonical⟩) p.rest
  have hopen : p.tree.openToken.Plays .patternOpen := Token.plays_of_text rfl rfl rfl
  have hclose : p.tree.closeToken.Plays .patternClose := Token.plays_of_text rfl rfl rfl
  have h := RegexLiteral.Pattern.Canonical.mk hopen p.first.canonical hrest hclose
    p.flags.canonical
  simpa [items] using h

end Written

theorem Written.canonical (w : Written) :
    Node.Canonical (w.items.filterMap Item.node?) w.tree := by
  cases w with
  | pattern p => exact .pattern p.canonical
  | flags f => exact .flags f.canonical

/-! ## Every token -/

/-- A token plays a role, or it is one of a node that was put in. -/
def Token.Accounted (ns : List Node) (t : Token) : Prop :=
  (∃ r, t.Plays r) ∨ ∃ n ∈ ns, t ∈ n.tokens

section Accounted

variable {ns ns' : List Node} {t : Token}

theorem Token.Plays.accounted {r : TokenRole} (h : t.Plays r) : t.Accounted ns := .inl ⟨r, h⟩

theorem Token.Accounted.mono (h : t.Accounted ns) (hs : ns ⊆ ns') : t.Accounted ns' := by
  refine h.imp_right fun hex => ?_
  obtain ⟨n, hn, ht⟩ := hex
  exact ⟨n, hs hn, ht⟩

theorem ButFor.Row.accounted {α : Type} {R : ButFor α} {tokens : α → List Token} {as : List α}
    (h : Row R ns as) (hR : ∀ {ns a}, R ns a → ∀ t ∈ tokens a, t.Accounted ns) :
    ∀ t ∈ as.flatMap tokens, t.Accounted ns := by
  induction h with
  | nil => simp
  | cons ha _ ih =>
    rw [List.flatMap_cons, List.forall_mem_append]
    exact ⟨fun t ht => (hR ha t ht).mono (List.subset_append_left _ _),
      fun t ht => (ih t ht).mono (List.subset_append_right _ _)⟩

theorem EscapeSequence.Canonical.accounted {inClass : Bool} {e : EscapeSequence}
    (h : e.Canonical inClass) : ∀ t ∈ e.tokens, t.Accounted [] := by
  simp only [tokens, List.forall_mem_cons]
  exact ⟨h.escape.accounted, h.code.accounted, by simp⟩

theorem Character.Canonical.accounted {inClass : Bool} {c : Character}
    (h : c.Canonical inClass) : ∀ t ∈ c.tokens, t.Accounted [] := by
  cases c with
  | literal u => exact List.forall_mem_singleton.2 (Token.Plays.accounted h)
  | escaped e => exact EscapeSequence.Canonical.accounted h

theorem WordCharacterSet.Canonical.accounted {s : WordCharacterSet} (h : s.Canonical) :
    ∀ t ∈ s.tokens, t.Accounted [] := by
  simp only [tokens, List.forall_mem_cons]
  exact ⟨h.escape.accounted, h.value.accounted, by simp⟩

theorem Gap.Canonical.accounted {g : Gap} (h : g.Canonical) :
    ∀ t ∈ g.tokens, t.Accounted [] := by
  simp only [tokens, List.forall_mem_cons]
  exact ⟨h.escape.accounted, h.value.accounted, by simp⟩

theorem Token.accounted_of_mem {n : Node} {ts : List Token} (h : ts = n.tokens) :
    ∀ t ∈ ts, t.Accounted [n] := by
  intro t ht
  exact .inr ⟨n, List.mem_cons_self, h ▸ ht⟩

theorem ClassElement.Canonical.accounted {e : ClassElement} (h : Canonical ns e) :
    ∀ t ∈ e.tokens, t.Accounted ns := by
  induction h with
  | character h => exact h.accounted
  | wordCharacterSet h => exact h.accounted
  | range hmin hsigil hmax ihmin ihmax =>
    simp only [tokens, CharacterClassRange.tokens, List.forall_mem_append, List.forall_mem_cons]
    exact ⟨fun t ht => (ihmin t ht).mono (List.subset_append_left _ _), hsigil.accounted,
      fun t ht => (ihmax t ht).mono (List.subset_append_right _ _)⟩
  | spliced h => exact Token.accounted_of_mem (Written.tokens_of_classElement? h)

theorem CharacterClass.Canonical.accounted {c : CharacterClass} (h : c.Canonical ns) :
    ∀ t ∈ c.tokens, t.Accounted ns := by
  simp only [tokens, List.cons_append, List.forall_mem_cons, List.forall_mem_append,
    Option.mem_toList]
  exact ⟨h.opens.accounted, ⟨fun t ht => (h.negates t ht).accounted,
    h.elements.accounted ClassElement.Canonical.accounted⟩, h.closes.accounted, by simp⟩

theorem Atom.Canonical.accounted {a : Atom} (h : Canonical ns a) :
    ∀ t ∈ a.tokens, t.Accounted ns := by
  cases h with
  | character h => exact h.accounted
  | characterClass h => exact h.accounted
  | wordCharacterSet h => exact h.accounted
  | gap h => exact h.accounted
  | spliced h => exact Token.accounted_of_mem (Written.tokens_of_element? h)

theorem Sigil.Canonical.accounted {s : Sigil} (h : s.Canonical) :
    ∀ t ∈ s.tokens, t.Accounted ns := by
  cases s with
  | token u => exact List.forall_mem_singleton.2 (Token.Plays.accounted h)
  | braces b =>
    obtain ⟨hopens, hmin, hseparates, hmax, hcloses⟩ := h
    simp only [tokens, Braces.tokens, List.cons_append, List.forall_mem_cons,
      List.forall_mem_append, Option.mem_toList]
    exact ⟨hopens.accounted, hmin.accounted, ⟨fun t ht => (hseparates t ht).accounted,
      fun t ht => (hmax t ht).accounted⟩, hcloses.accounted, by simp⟩

theorem Element.Canonical.accounted {e : Element} (h : Canonical ns e) :
    ∀ t ∈ e.tokens, t.Accounted ns := by
  cases h with
  | atom h => exact h.accounted
  | quantifier h hs => exact List.forall_mem_append.2 ⟨h.accounted, hs.accounted⟩
  | spliced q => exact Token.accounted_of_mem rfl

theorem Alternative.Canonical.accounted {a : Alternative} (h : Canonical ns a) :
    ∀ t ∈ a.tokens, t.Accounted ns :=
  ButFor.Row.accounted h Element.Canonical.accounted

theorem Flags.Canonical.accounted {f : Flags} (h : Canonical ns f) :
    ∀ t ∈ f.tokens, t.Accounted ns := by
  cases h with
  | letters h => exact fun t ht => (h t ht).accounted
  | spliced f => exact Token.accounted_of_mem rfl

theorem Pattern.Canonical.accounted {p : Pattern} (h : Canonical ns p) :
    ∀ t ∈ p.tokens, t.Accounted ns := by
  obtain @⟨ns, ns', ns'', _, hopens, hfirst, hrest, hcloses, hflags⟩ := h
  have hbehind : ∀ t ∈ p.rest.flatMap fun r => r.1 :: r.2.tokens, t.Accounted ns' :=
    hrest.accounted fun h => List.forall_mem_cons.2
      ⟨h.separates.accounted, Alternative.Canonical.accounted h.alternative⟩
  simp only [tokens, List.cons_append, List.forall_mem_cons, List.forall_mem_append]
  refine ⟨hopens.accounted, ⟨fun t ht => ?_, fun t ht => ?_⟩, hcloses.accounted, fun t ht => ?_⟩
  · exact (Alternative.Canonical.accounted hfirst t ht).mono (List.subset_append_left _ _)
  · exact (hbehind t ht).mono (by simp)
  · exact (hflags.accounted t ht).mono (by simp)

theorem Node.Canonical.accounted {n : Node} (h : Canonical ns n) :
    ∀ t ∈ n.tokens, t.Accounted ns := by
  cases h with
  | pattern h => exact h.accounted
  | flags h => exact h.accounted

end Accounted

namespace Template

variable {t : Template} {production : Production} {fuel : Option Nat} {n : Node}

/-- The tree of a template is canonical but for the nodes that were put in, and sound if these are.
-/
theorem canonical_of_parse (h : t.parse production fuel = .ok n) :
    n.Canonical t.substitutions
      ∧ (∀ u ∈ n.tokens, (∃ r, u.Plays r) ∨ ∃ m ∈ t.substitutions, u ∈ m.tokens)
      ∧ ((∀ m ∈ t.substitutions, m.Sound) → n.Sound) := by
  have hcanonical : n.Canonical t.substitutions := by
    obtain ⟨w, -, hd, -, rfl⟩ := parse_eq_ok_iff.1 h
    rw [hd.nodes]
    exact w.canonical
  exact ⟨hcanonical, hcanonical.accounted, fun hs => sound_of_parse hs h⟩

/-- A gap, which is an escape in a class, and a range that begins with an embedded node. -/
theorem canonical_of_parse_samples :
    (∃ n, (ofText "/[^\\g-z]\x7b2,\x7d\\w|\\g/gi").parse .pattern none = .ok n
      ∧ n.Canonical [] ∧ n.Sound)
    ∧ ∃ n, (⟨"/[", ["-z]+/"], [.character (.ofCode 'n')]⟩ : Template).parse .pattern none = .ok n
      ∧ n.Canonical [.character (.ofCode 'n')] ∧ n.Sound := by
  constructor
  · obtain ⟨n, hn⟩ : ∃ n, (ofText "/[^\\g-z]\x7b2,\x7d\\w|\\g/gi").parse .pattern none = .ok n :=
      exists_of_isOk (by decide +kernel)
    exact ⟨n, hn, (canonical_of_parse hn).1, (canonical_of_parse hn).2.2 (by simp [ofText])⟩
  · obtain ⟨n, hn⟩ : ∃ n, (⟨"/[", ["-z]+/"], [.character (.ofCode 'n')]⟩ : Template).parse .pattern
        none = .ok n := exists_of_isOk (by decide +kernel)
    have hs : ∀ m ∈ [Node.character (.ofCode 'n')], m.Sound := by
      rintro _ (_ | ⟨_, ⟨⟩⟩)
      exact ⟨EscapeSequence.built_ofCode 'n', Character.allKeep_singleton.2 trivial⟩
    exact ⟨n, hn, (canonical_of_parse hn).1, (canonical_of_parse hn).2.2 hs⟩

end Template

end RegexLiteral
