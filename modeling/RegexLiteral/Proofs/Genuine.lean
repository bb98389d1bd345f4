import RegexLiteral.Proofs.ClassBody
import RegexLiteral.Proofs.Grammar
import RegexLiteral.Proofs.Lossless
import RegexLiteral.Proofs.Site

/-!
# Trees that come from sources

A node that was read in a source is made of the tokens that the parser makes, whatever stood around
it (`Node.Genuine`). Parts of genuine nodes are genuine, and so is the tree of a template if the
nodes that are put in are (`Template.genuine_of_parse`). What is not kept is how a node can stand
beside others: a plus from a class is a genuine character, and so is a closing bracket from outside
of one.
-/

namespace RegexLiteral

/-! ## Genuine nodes -/

inductive Character.Genuine : Character → Prop
  | literal {c : Char} (hc : c ≠ '\\') (hl : ¬ isLineTerminator c) : Genuine (.ofChar c)
  | escaped {code : Char} (hw : ¬ Parser.isWordCode code) (hl : ¬ isLineTerminator code) :
    Genuine (.ofCode code)

inductive WordCharacterSet.Genuine : WordCharacterSet → Prop
  | mk {code : Char} (hw : Parser.isWordCode code) : Genuine (.ofCode code)

inductive ClassElement.Genuine : ClassElement → Prop
  | character {c : Character} (h : c.Genuine) : Genuine (.character c)
  | range {min max : Character} (hmin : min.Genuine) (hmax : max.Genuine) :
    Genuine (.range ⟨min, .ofChar .punctuator '-', max⟩)
  | wordCharacterSet {s : WordCharacterSet} (h : s.Genuine) : Genuine (.wordCharacterSet s)

structure CharacterClass.Genuine (c : CharacterClass) : Prop where
  opens : c.openToken = (Token.ofChar .punctuator '[').opening ']' .characterClass
  negates : ∀ t ∈ c.negateToken, t = .ofChar .punctuator '^'
  elements : ∀ e ∈ c.elements, e.Genuine
  closes : c.closeToken = (Token.ofChar .punctuator ']').balancing

inductive Atom.Genuine : Atom → Prop
  | character {c : Character} (h : c.Genuine) : Genuine (.character c)
  | characterClass {c : CharacterClass} (h : c.Genuine) : Genuine (.characterClass c)
  | wordCharacterSet {s : WordCharacterSet} (h : s.Genuine) : Genuine (.wordCharacterSet s)
  | gap : Genuine (.gap (.ofCode 'g'))

structure Quantifier.Genuine (q : Quantifier) : Prop where
  atom : q.atom.Genuine
  sigil : ∃ s : Written.Sigil, q.sigil = s.tree ∧ q.min = s.min ∧ q.max = s.max

def Element.Genuine : Element → Prop
  | atom a => a.Genuine
  | quantifier q => q.Genuine

def Alternative.Genuine (a : Alternative) : Prop := ∀ e ∈ a.elements, e.Genuine

def Flags.Genuine (f : Flags) : Prop := ∃ fs distinct, f = (Written.Flags.letters fs distinct).tree

structure Pattern.Genuine (p : Pattern) : Prop where
  opens : p.openToken = (Token.ofChar .punctuator '/').opening '/' .pattern
  first : p.first.Genuine
  rest : ∀ r ∈ p.rest, r.1 = .ofChar .punctuator '|' ∧ r.2.Genuine
  closes : p.closeToken = (Token.ofChar .punctuator '/').balancing
  flags : p.flags.Genuine

def Node.Genuine : Node → Prop
  | pattern p => p.Genuine
  | alternative a => a.Genuine
  | character c => c.Genuine
  | characterClass c => c.Genuine
  | characterClassRange r => (ClassElement.range r).Genuine
  | quantifier q => q.Genuine
  | flags f => f.Genuine
  | escapeSequence e => (Character.escaped e).Genuine
  | wordCharacterSet s => s.Genuine
  | gap g => (Atom.gap g).Genuine

theorem Node.Genuine.classElement {n : Node} {e : ClassElement} (h : n.Genuine)
    (he : n.classElement? = some e) : e.Genuine := by
  cases n <;> simp only [classElement?, Option.some.injEq, reduceCtorEq] at he <;> subst he
  case character => exact .character h
  case characterClassRange => exact h
  case escapeSequence => exact .character h
  case wordCharacterSet => exact .wordCharacterSet h

theorem Node.Genuine.element {n : Node} {e : Element} (h : n.Genuine)
    (he : n.element? = some e) : e.Genuine := by
  cases n <;> simp only [element?, Option.some.injEq, reduceCtorEq] at he <;> subst he
  case character => exact Atom.Genuine.character h
  case characterClass => exact Atom.Genuine.characterClass h
  case quantifier => exact h
  case escapeSequence => exact Atom.Genuine.character h
  case wordCharacterSet => exact Atom.Genuine.wordCharacterSet h
  case gap => exact h

/-! ## Parts -/

/-- All nodes of the tree, and the bare escape sequences of its escaped characters. -/
def Pattern.nodes (p : Pattern) : List Node :=
  .pattern p :: p.alternatives.map .alternative ++ p.sites.map Site.node

namespace Site

variable {start : Nat} {p : Site}

theorem genuine_of_mem_whole {n : Node} (hp : p ∈ whole start n) (h : n.Genuine) :
    p.node.Genuine := by
  obtain ⟨g, hg, rfl⟩ := List.mem_map.1 hp
  unfold Node.guises at hg
  split at hg
  · obtain rfl | hg := List.mem_cons.1 hg
    · exact h
    · obtain rfl := List.mem_singleton.1 hg
      exact h
  · obtain rfl := List.mem_singleton.1 hg
    exact h

theorem genuine_of_mem_inRow {sites : Nat → α → List Site} {tokens : α → List Token} :
    ∀ {as : List α} {start : Nat}, (∀ a ∈ as, ∀ start, p ∈ sites start a → p.node.Genuine) →
      p ∈ inRow sites tokens start as → p.node.Genuine
  | [], _, _, hp => absurd hp List.not_mem_nil
  | a :: as, _, h, hp => by
    rcases List.mem_append.1 hp with hp | hp
    · exact h a List.mem_cons_self _ hp
    · exact genuine_of_mem_inRow (fun b hb => h b (List.mem_cons_of_mem _ hb)) hp

end Site

section Parts

variable {start : Nat} {p : Site}

theorem ClassElement.Genuine.site {e : ClassElement} (h : e.Genuine) (hp : p ∈ e.sites start) :
    p.node.Genuine := by
  rcases List.mem_append.1 hp with hp | hp
  · refine Site.genuine_of_mem_whole hp ?_
    cases h with
    | character h => exact h
    | range hmin hmax => exact .range hmin hmax
    | wordCharacterSet h => exact h
  · cases h with
    | range hmin hmax =>
      rcases List.mem_append.1 hp with hp | hp
      · exact Site.genuine_of_mem_whole hp hmin
      · exact Site.genuine_of_mem_whole hp hmax
    | _ => cases hp

theorem Atom.Genuine.site {a : Atom} (h : a.Genuine) (hp : p ∈ a.sites start) :
    p.node.Genuine := by
  rcases List.mem_append.1 hp with hp | hp
  · refine Site.genuine_of_mem_whole hp ?_
    cases h with
    | character h => exact h
    | characterClass h => exact h
    | wordCharacterSet h => exact h
    | gap => exact .gap
  · cases h with
    | characterClass h =>
      exact Site.genuine_of_mem_inRow (fun e he _ => (h.elements e he).site) hp
    | _ => cases hp

theorem Element.Genuine.site {e : Element} (h : e.Genuine) (hp : p ∈ e.sites start) :
    p.node.Genuine := by
  cases e with
  | atom a => exact Atom.Genuine.site h hp
  | quantifier q =>
    rcases List.mem_append.1 hp with hp | hp
    · exact Site.genuine_of_mem_whole hp h
    · exact h.atom.site hp

theorem Alternative.Genuine.site {a : Alternative} (h : a.Genuine) (hp : p ∈ a.sites start) :
    p.node.Genuine :=
  Site.genuine_of_mem_inRow (fun e he _ => (h e he).site) hp

theorem Pattern.Genuine.node {q : Pattern} {n : Node} (h : q.Genuine) (hn : n ∈ q.nodes) :
    n.Genuine := by
  rcases List.mem_append.1 hn with hn | hn
  · obtain rfl | hn := List.mem_cons.1 hn
    · exact h
    obtain ⟨a, ha, rfl⟩ := List.mem_map.1 hn
    obtain rfl | ha := List.mem_cons.1 ha
    · exact h.first
    · obtain ⟨r, hr, rfl⟩ := List.mem_map.1 ha
      exact (h.rest r hr).2
  · obtain ⟨p, hp, rfl⟩ := List.mem_map.1 hn
    rcases List.mem_append.1 hp with hp | hp
    · exact h.first.site hp
    rcases List.mem_append.1 hp with hp | hp
    · exact Site.genuine_of_mem_inRow (fun r hr _ => (h.rest r hr).2.site) hp
    · exact Site.genuine_of_mem_whole hp h.flags

end Parts

/-! ## Derivations -/

/-- A character that can stand in a literal, or a genuine node. -/
inductive Item.Genuine : Item → Prop
  | char {c : Char} (hl : ¬ isLineTerminator c) : Genuine (.char c)
  | node {n : Node} (h : n.Genuine) : Genuine (.node n)

theorem Item.Genuine.not_isLineTerminator {c : Char} (h : (Item.char c).Genuine) :
    ¬ isLineTerminator c := by
  cases h with
  | char hl => exact hl

theorem Item.Genuine.ofNode {n : Node} (h : (Item.node n).Genuine) : n.Genuine := by
  cases h with
  | node h => exact h

namespace Written

namespace ClassAtom

theorem genuine_element {a : ClassAtom} (h : ∀ i ∈ a.items, i.Genuine) : a.element.Genuine := by
  cases a with
  | char c hc =>
    exact .character (.literal hc.2 (h (.char c) List.mem_cons_self).not_isLineTerminator)
  | pair code =>
    have hl := (h (.char code) (by simp [items])).not_isLineTerminator
    rw [element]
    split
    · rename_i hw
      exact .wordCharacterSet (.mk hw)
    · rename_i hw
      exact .character (.escaped hw hl)
  | node n e he => exact (h (.node n) List.mem_cons_self).ofNode.classElement he

theorem genuine_character {a : ClassAtom} {c : Character} (h : ∀ i ∈ a.items, i.Genuine)
    (hc : a.character? = some c) : c.Genuine := by
  have ha := genuine_element h
  rw [element_eq hc] at ha
  cases ha with
  | character h => exact h

theorem genuine_elements {as : List ClassAtom} (h : ∀ a ∈ as, ∀ i ∈ a.items, i.Genuine) :
    ∀ e ∈ elements as, e.Genuine := by
  fun_induction elements as with
  | case1 => simp
  | case2 a =>
    simp only [List.mem_singleton, forall_eq] at h ⊢
    exact genuine_element h
  | case3 a b =>
    rw [List.forall_mem_cons, List.forall_mem_cons] at h ⊢
    exact ⟨genuine_element h.1, genuine_element h.2.1, by simp⟩
  | case4 a b c rest min max hmax hminus hmin ih =>
    simp only [List.forall_mem_cons] at h ⊢
    exact ⟨.range (genuine_character h.1 hmin) (genuine_character h.2.2.1 hmax), ih h.2.2.2⟩
  | case5 a b c rest hne ih =>
    rw [List.forall_mem_cons] at h ⊢
    exact ⟨genuine_element h.1, ih h.2⟩

theorem genuine_charClass {body : List ClassAtom} (h : ∀ a ∈ body, ∀ i ∈ a.items, i.Genuine) :
    (charClass body).Genuine where
  opens := rfl
  negates := negateToken_eq body
  elements := genuine_elements fun a ha => h a (mem_of_mem_negation ha)
  closes := rfl

end ClassAtom

theorem Atom.genuine {a : Atom} (h : ∀ i ∈ a.items, i.Genuine) : a.tree.Genuine := by
  cases a with
  | literal c hc =>
    refine .character (.literal ?_ (h (.char c) List.mem_cons_self).not_isLineTerminator)
    rintro rfl
    exact hc (by decide)
  | pair code =>
    have hl := (h (.char code) (by simp [items])).not_isLineTerminator
    rw [tree]
    split
    · rename_i hw
      exact .wordCharacterSet (.mk hw)
    · rename_i hw
      split
      · rename_i hg
        subst hg
        exact .gap
      · exact .character (.escaped hw hl)
  | charClass body =>
    refine .characterClass (ClassAtom.genuine_charClass fun a ha i hi => h i ?_)
    simp only [items, List.cons_append, List.mem_cons, List.mem_append, List.mem_flatMap]
    exact .inr (.inl ⟨a, ha, hi⟩)
  | node n e he => exact (h (.node n) List.mem_cons_self).ofNode.element he

theorem Element.genuine {e : Element} (h : ∀ i ∈ e.items, i.Genuine) : e.tree.Genuine := by
  cases e with
  | atom a => exact Atom.genuine h
  | repeated a s =>
    exact ⟨Atom.genuine fun i hi => h i (List.mem_append_left _ hi), s, rfl, rfl, rfl⟩
  | quantifier q => exact (h (.node (.quantifier q)) List.mem_cons_self).ofNode

theorem Alternative.genuine {a : Alternative} (h : ∀ i ∈ a.items, i.Genuine) :
    a.tree.Genuine := by
  intro e he
  obtain ⟨e', he', rfl⟩ := List.mem_map.1 he
  exact Element.genuine fun i hi => h i (List.mem_flatMap.2 ⟨e', he', hi⟩)

theorem Flags.genuine {f : Flags} (h : ∀ i ∈ f.items, i.Genuine) : f.tree.Genuine := by
  cases f with
  | letters fs distinct => exact ⟨fs, distinct, rfl⟩
  | node f => exact (h (.node (.flags f)) List.mem_cons_self).ofNode

theorem Pattern.genuine {p : Pattern} (h : ∀ i ∈ p.items, i.Genuine) : p.tree.Genuine where
  opens := rfl
  first := Alternative.genuine fun i hi => h i (by simp [items, hi])
  rest r hr := by
    obtain ⟨a, ha, rfl⟩ := List.mem_map.1 hr
    refine ⟨rfl, Alternative.genuine fun i hi => h i ?_⟩
    simp only [items, List.mem_append, List.mem_flatMap]
    exact .inl (.inr ⟨a, ha, List.mem_cons_of_mem _ hi⟩)
  closes := rfl
  flags := Flags.genuine fun i hi => h i (by simp [items, hi])

end Written

/-- A node of the tree of a source. -/
def Node.FromSource (n : Node) : Prop := ∃ s p, parsePattern s = .ok p ∧ n ∈ p.nodes

theorem Node.FromSource.genuine {n : Node} (h : n.FromSource) : n.Genuine := by
  obtain ⟨s, p, hp, hn⟩ := h
  obtain ⟨hs, w, hw, -, rfl⟩ := (parsePattern_eq_ok_iff s p).1 hp
  refine (Written.Pattern.genuine fun i hi => ?_).node hn
  rw [hw] at hi
  obtain ⟨c, hc, rfl⟩ := List.mem_map.1 hi
  exact .char (hs c hc)

/-- What is put together from genuine nodes and from characters is genuine. -/
theorem Template.genuine_of_parse {t : Template} {fuel : Option Nat} {p : Pattern}
    (h : t.parse .pattern fuel = .ok (.pattern p)) (hnodes : ∀ n ∈ t.substitutions, n.Genuine) :
    p.Genuine := by
  obtain ⟨w, hw, hd, -, htree⟩ := parse_eq_ok_iff.1 h
  cases w with
  | flags f => cases hw
  | pattern w =>
    obtain rfl := Node.pattern.inj htree
    refine Written.Pattern.genuine fun i hi => ?_
    cases i with
    | char c => exact .char fun hl => hd.clean _ hi (Kind.ofChar_eq_garbage_iff.2 hl)
    | node n =>
      refine .node (hnodes n ?_)
      rw [hd.nodes]
      exact List.mem_filterMap.2 ⟨.node n, hi, rfl⟩
    | missing => exact absurd hi w.missing_not_mem
    | terminators run => exact absurd rfl (hd.clean _ hi)

end RegexLiteral
