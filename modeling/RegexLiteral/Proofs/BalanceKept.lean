import RegexLiteral.Proofs.Balance
import RegexLiteral.Proofs.Derivation
import RegexLiteral.Proofs.Spelling

/-!
# Reading keeps the balance

A tree is balanced if the nodes put into it are, and so is each part of it that does not come from
such a node, down to the ends of a range and the braces of a quantifier
(`Template.checkBalance_of_parse`). Every derivation puts its markers around rows that are balanced
by themselves (`Kept`), and a node is such a row too, whatever markers its tokens carry.
-/

namespace RegexLiteral

/-! ## Parts -/

def Character.parts : Character → List (List Token)
  | literal token => [[token]]
  | escaped e => [(escaped e).tokens, e.tokens]

def CharacterClassRange.parts (r : CharacterClassRange) : List (List Token) :=
  r.tokens :: (r.min.parts ++ r.max.parts)

def ClassElement.parts : ClassElement → List (List Token)
  | character c => c.parts
  | range r => r.parts
  | wordCharacterSet s => [s.tokens]

def CharacterClass.parts (c : CharacterClass) : List (List Token) :=
  c.tokens :: c.elements.flatMap ClassElement.parts

def Sigil.parts : Sigil → List (List Token)
  | token t => [[t]]
  | braces b => [(braces b).tokens, b.tokens]

def Atom.parts : Atom → List (List Token)
  | character c => c.parts
  | characterClass c => c.parts
  | wordCharacterSet s => [s.tokens]
  | gap g => [g.tokens]

def Quantifier.parts (q : Quantifier) : List (List Token) :=
  q.tokens :: (q.atom.parts ++ q.sigil.parts)

def Element.parts : Element → List (List Token)
  | atom a => a.parts
  | quantifier q => q.parts

def Alternative.parts (a : Alternative) : List (List Token) :=
  a.tokens :: a.elements.flatMap Element.parts

def Pattern.parts (p : Pattern) : List (List Token) :=
  p.tokens :: (p.alternatives.flatMap Alternative.parts ++ [p.flags.tokens])

/-- The tokens of the node, of each node inside it, and of each sigil: a row for each. -/
def Node.parts : Node → List (List Token)
  | pattern p => p.parts
  | alternative a => a.parts
  | character c => c.parts
  | characterClass c => c.parts
  | characterClassRange r => r.parts
  | quantifier q => q.parts
  | flags f => [f.tokens]
  | escapeSequence e => [e.tokens]
  | wordCharacterSet s => [s.tokens]
  | gap g => [g.tokens]

theorem parts_of_classElement? {n : Node} {e : ClassElement} (h : n.classElement? = some e) :
    e.parts ⊆ n.parts := by
  cases n <;> simp only [Node.classElement?, Option.some.injEq, reduceCtorEq] at h <;> subst h <;>
    simp [ClassElement.parts, Character.parts, Character.tokens, Node.parts]

theorem parts_of_element? {n : Node} {e : Element} (h : n.element? = some e) :
    e.parts ⊆ n.parts := by
  cases n <;> simp only [Node.element?, Option.some.injEq, reduceCtorEq] at h <;> subst h <;>
    simp [Element.parts, Atom.parts, Character.parts, Character.tokens, Node.parts]

/-! ## Rows with their parts -/

variable {is : List Item} {ts us : List Token} {ps qs : List (List Token)}

def BalancedNodes (is : List Item) : Prop := ∀ n, .node n ∈ is → Balanced n.tokens

/-- The tokens are balanced, and so is each part that does not come from a node among the items. -/
structure Kept (is : List Item) (tokens : List Token) (parts : List (List Token)) : Prop where
  whole : Balanced tokens
  parts : ∀ part ∈ parts, Balanced part ∨ ∃ n, .node n ∈ is ∧ part ∈ n.parts

namespace Kept

theorem leaf (h : Balanced ts) : Kept is ts [ts] :=
  ⟨h, fun _ hp => .inl (List.mem_singleton.1 hp ▸ h)⟩

/-- A row around the parts of others. -/
theorem around (hu : Balanced us) (h : Kept is ts ps) : Kept is us (us :: ps) := by
  refine ⟨hu, fun part hp => ?_⟩
  rcases List.mem_cons.1 hp with rfl | hp
  · exact .inl hu
  · exact h.parts part hp

theorem bare (h : Balanced ts) : Kept is ts [] := ⟨h, fun _ hp => absurd hp List.not_mem_nil⟩

theorem append (h : Kept is ts ps) (h' : Kept is us qs) : Kept is (ts ++ us) (ps ++ qs) := by
  refine ⟨h.whole.append h'.whole, fun part hp => ?_⟩
  rcases List.mem_append.1 hp with hp | hp
  · exact h.parts part hp
  · exact h'.parts part hp

theorem flatMap {α : Type} {f : α → List Token} {g : α → List (List Token)} {xs : List α}
    (h : ∀ x ∈ xs, Kept is (f x) (g x)) : Kept is (xs.flatMap f) (xs.flatMap g) := by
  refine ⟨Balanced.flatMap fun x hx => (h x hx).whole, fun part hp => ?_⟩
  obtain ⟨x, hx, hp⟩ := List.mem_flatMap.1 hp
  exact (h x hx).parts part hp

/-- What a node is taken as has its tokens and no parts but its own. -/
theorem ofNode {n : Node} (h : BalancedNodes is) (hn : .node n ∈ is) (ht : ts = n.tokens)
    (hp : ps ⊆ n.parts) : Kept is ts ps := by
  refine ⟨?_, fun part hpart => .inr ⟨n, hn, hp hpart⟩⟩
  rw [ht]
  exact h n hn

end Kept

theorem kept_ofChar (c : Char) :
    Kept is (Character.ofChar c).tokens (Character.ofChar c).parts :=
  .leaf (balanced_plain _ _)

theorem kept_ofCode (code : Char) :
    Kept is (Character.ofCode code).tokens (Character.ofCode code).parts := by
  have h : Balanced (Character.ofCode code).tokens :=
    Leads.append (leads_startingSpan _ _ _) (leads_endingSpan _ _ _)
  exact .around h (.leaf h)

theorem balanced_wordSet (code : Char) : Balanced (WordCharacterSet.ofCode code).tokens :=
  .append (balanced_plain _ _) (balanced_plain _ _)

theorem balanced_gap (code : Char) : Balanced (Gap.ofCode code).tokens :=
  .append (balanced_plain _ _) (balanced_plain _ _)

namespace Written

/-! ## Classes -/

namespace ClassAtom

theorem kept_element {a : ClassAtom} (h : BalancedNodes is) (ha : a.items ⊆ is) :
    Kept is a.element.tokens a.element.parts := by
  cases a with
  | char c _ => exact kept_ofChar c
  | pair code =>
    rw [element]
    split
    · exact .leaf (balanced_wordSet code)
    · exact kept_ofCode code
  | node n e he =>
    exact .ofNode h (ha List.mem_cons_self) (tokens_of_classElement? he)
      (parts_of_classElement? he)

theorem kept_range {min max : Character} (hmin : Kept is min.tokens min.parts)
    (hmax : Kept is max.tokens max.parts) :
    let r : CharacterClassRange := ⟨min, .ofChar .punctuator '-', max⟩
    Kept is r.tokens r.parts := by
  have hminus : Balanced [Token.ofChar .punctuator '-'] := balanced_plain _ _
  exact .around (hmin.whole.append (hminus.append hmax.whole)) (hmin.append hmax)

theorem kept_elements {as : List ClassAtom}
    (h : ∀ a ∈ as, Kept is a.element.tokens a.element.parts) :
    Kept is ((elements as).flatMap ClassElement.tokens)
      ((elements as).flatMap ClassElement.parts) := by
  fun_induction elements as with
  | case1 => exact .bare .nil
  | case2 a => exact (h a List.mem_cons_self).append (.bare .nil)
  | case3 a b =>
    have hb := h b (List.mem_cons_of_mem _ List.mem_cons_self)
    exact (h a List.mem_cons_self).append (hb.append (.bare .nil))
  | case4 a b c rest min max hmax hminus hmin ih =>
    have ha := h a List.mem_cons_self
    have hc := h c (List.mem_cons_of_mem _ (List.mem_cons_of_mem _ List.mem_cons_self))
    rw [element_eq hmin] at ha
    rw [element_eq hmax] at hc
    refine (kept_range ha hc).append (ih fun e he => h e ?_)
    exact List.mem_cons_of_mem _ (List.mem_cons_of_mem _ (List.mem_cons_of_mem _ he))
  | case5 a b c rest hno ih =>
    exact (h a List.mem_cons_self).append (ih fun e he => h e (List.mem_cons_of_mem _ he))

theorem balanced_negation (body : List ClassAtom) : Balanced (negation body).1.toList := by
  unfold negation
  split
  · split
    · exact balanced_plain _ _
    · exact .nil
  · exact .nil

theorem kept_charClass {body : List ClassAtom} (h : BalancedNodes is)
    (hb : ∀ a ∈ body, a.items ⊆ is) : Kept is (charClass body).tokens (charClass body).parts := by
  have hatoms (a : ClassAtom) (ha : a ∈ (negation body).2) :
      Kept is a.element.tokens a.element.parts := kept_element h (hb a (mem_of_mem_negation ha))
  have hinner := kept_elements hatoms
  exact .around (.paired _ _ _ _ ((balanced_negation body).append hinner.whole)) hinner

end ClassAtom

/-! ## Elements -/

theorem Atom.kept_tree {a : Atom} (h : BalancedNodes is) (ha : a.items ⊆ is) :
    Kept is a.tree.tokens a.tree.parts := by
  cases a with
  | literal c _ => exact kept_ofChar c
  | pair code =>
    rw [tree]
    split
    · exact .leaf (balanced_wordSet code)
    · split
      · exact .leaf (balanced_gap code)
      · exact kept_ofCode code
  | charClass body =>
    refine ClassAtom.kept_charClass h fun a hmem i hi => ha ?_
    exact List.mem_cons_of_mem _ (List.mem_append_left _ (List.mem_flatMap.2 ⟨a, hmem, hi⟩))
  | node n a hn =>
    exact .ofNode h (ha List.mem_cons_self) (tokens_of_element? hn) (parts_of_element? hn)

theorem Sigil.balanced_tree (s : Sigil) : Balanced s.tree.tokens := by
  have hn (n : Number) : Balanced [n.token] := balanced_plain _ _
  have hcomma : Balanced [comma] := balanced_plain _ _
  cases s with
  | plus | star | question => exact balanced_plain _ _
  | exactly n => exact .paired _ _ _ _ (hn n)
  | atLeast n => exact .paired _ _ _ _ ((hn n).append hcomma)
  | between min max _ => exact .paired _ _ _ _ ((hn min).append (hcomma.append (hn max)))

theorem Sigil.kept_tree (s : Sigil) : Kept is s.tree.tokens s.tree.parts := by
  have h := s.balanced_tree
  cases s with
  | plus | star | question => exact .leaf h
  | exactly n => exact .around h (.leaf h)
  | atLeast n => exact .around h (.leaf h)
  | between min max _ => exact .around h (.leaf h)

theorem Element.kept_tree {e : Element} (h : BalancedNodes is) (he : e.items ⊆ is) :
    Kept is e.tree.tokens e.tree.parts := by
  cases e with
  | atom a => exact Atom.kept_tree h he
  | repeated a s =>
    have hboth := (Atom.kept_tree h fun i hi => he (List.mem_append_left _ hi)).append s.kept_tree
    exact .around hboth.whole hboth
  | quantifier q => exact .ofNode h (he List.mem_cons_self) rfl (List.Subset.refl _)

theorem Alternative.kept_tree {a : Alternative} (h : BalancedNodes is) (ha : a.items ⊆ is) :
    Kept is a.tree.tokens a.tree.parts := by
  have hrow : Kept is a.tree.tokens (a.tree.elements.flatMap RegexLiteral.Element.parts) := by
    refine .flatMap fun e he => ?_
    obtain ⟨e, hmem, rfl⟩ := List.mem_map.1 he
    exact Element.kept_tree h fun i hi => ha (List.mem_flatMap.2 ⟨e, hmem, hi⟩)
  exact .around hrow.whole hrow

/-! ## Literals -/

theorem Flags.balanced_tree {f : Flags} (h : BalancedNodes is) (hf : f.items ⊆ is) :
    Balanced f.tree.tokens := by
  cases f with
  | letters fs _ =>
    have hrow : Balanced (fs.flatMap fun f => [.ofChar .keyword f.letter]) :=
      .flatMap fun _ _ => balanced_plain _ _
    rwa [← List.map_eq_flatMap] at hrow
  | node f => exact h _ (hf List.mem_cons_self)

/-- The alternatives and their separators stand between the slashes, the flags behind them. -/
theorem Pattern.kept_tree {p : Pattern} (h : BalancedNodes is) (hp : p.items ⊆ is) :
    Kept is p.tree.tokens p.tree.parts := by
  have hfirst : Kept is p.first.tree.tokens p.first.tree.parts :=
    Alternative.kept_tree h fun i hi => hp (by simp [items, hi])
  have hrest : Kept is (p.tree.rest.flatMap fun r => r.1 :: r.2.tokens)
      (p.tree.rest.flatMap fun r => r.2.parts) := by
    refine .flatMap fun r hr => ?_
    obtain ⟨a, ha, rfl⟩ := List.mem_map.1 hr
    have hbar : Kept is [Token.ofChar .punctuator '|'] [] := .bare (balanced_plain _ _)
    refine hbar.append (Alternative.kept_tree h fun i hi => hp ?_)
    have hi' : i ∈ p.rest.flatMap fun a => .char '|' :: a.items :=
      List.mem_flatMap.2 ⟨a, ha, List.mem_cons_of_mem _ hi⟩
    exact List.mem_append_left _ (List.mem_append_right _ hi')
  have hflags : Balanced p.flags.tree.tokens :=
    Flags.balanced_tree h fun i hi => hp (List.mem_append_right _ (List.mem_cons_of_mem _ hi))
  have hinner := hfirst.append hrest
  have hparts := hinner.append (.leaf hflags)
  have htokens : p.tree.tokens = p.tree.openToken ::
      (p.first.tree.tokens ++ p.tree.rest.flatMap fun r => r.1 :: r.2.tokens)
      ++ [p.tree.closeToken] ++ p.flags.tree.tokens := List.append_cons _ _ _
  have hwhole : Balanced p.tree.tokens := by
    rw [htokens]
    exact (Balanced.paired _ _ _ _ hinner.whole).append hflags
  have heq : p.tree.parts = p.tree.tokens :: (p.first.tree.parts
      ++ p.tree.rest.flatMap (fun r => r.2.parts) ++ [p.flags.tree.tokens]) := by
    rw [RegexLiteral.Pattern.parts, RegexLiteral.Pattern.alternatives, List.flatMap_cons,
      List.flatMap_map]
    rfl
  rw [heq]
  exact .around hwhole hparts

end Written

theorem Written.kept_tree {w : Written} (h : BalancedNodes w.items) :
    Kept w.items w.tree.tokens w.tree.parts := by
  cases w with
  | pattern p => exact p.kept_tree h (List.Subset.refl _)
  | flags f => exact .leaf (f.balanced_tree h (List.Subset.refl _))

namespace Template

/-- What is read is balanced if the nodes that are put in are, and so is each part of it that comes
from none of them. If no node is put in, each part is balanced by itself. -/
theorem checkBalance_of_parse {t : Template} {production : Production} {fuel : Option Nat}
    {n : Node} (h : t.parse production fuel = .ok n) :
    ((∀ sub ∈ t.substitutions, checkBalance sub.tokens = .ok ()) →
      checkBalance n.tokens = .ok () ∧ ∀ part ∈ n.parts, checkBalance part = .ok ()
        ∨ ∃ sub ∈ t.substitutions, part ∈ sub.parts)
      ∧ (t.substitutions = [] → ∀ part ∈ n.parts, checkBalance part = .ok ()) := by
  obtain ⟨w, -, hd, -, rfl⟩ := parse_eq_ok_iff.1 h
  have hmem {sub : Node} : .node sub ∈ w.items → sub ∈ t.substitutions := by
    intro hsub
    rw [hd.nodes]
    exact List.mem_filterMap.2 ⟨.node sub, hsub, rfl⟩
  have hkept (hs : ∀ sub ∈ t.substitutions, checkBalance sub.tokens = .ok ()) :
      Kept w.items w.tree.tokens w.tree.parts :=
    w.kept_tree fun sub hsub => checkBalance_eq_ok_iff.1 (hs sub (hmem hsub))
  refine ⟨fun hs => ⟨checkBalance_eq_ok_iff.2 (hkept hs).whole, fun part hp => ?_⟩,
    fun hnil part hp => ?_⟩
  · rcases (hkept hs).parts part hp with hb | ⟨sub, hsub, hpart⟩
    · exact .inl (checkBalance_eq_ok_iff.2 hb)
    · exact .inr ⟨sub, hmem hsub, hpart⟩
  · have hs : ∀ sub ∈ t.substitutions, checkBalance sub.tokens = .ok () := by
      rw [hnil]
      exact fun sub hsub => absurd hsub List.not_mem_nil
    rcases (hkept hs).parts part hp with hb | ⟨sub, hsub, -⟩
    · exact checkBalance_eq_ok_iff.2 hb
    · have hnone := hmem hsub
      rw [hnil] at hnone
      exact absurd hnone List.not_mem_nil

theorem checkBalance_of_parse_embedded :
    (∃ n, (⟨"/x", ["+/g"], [.character (.ofCode 'n')]⟩ : Template).parse .pattern none = .ok n
      ∧ checkBalance n.tokens = .ok ())
    ∧ ∃ n, (ofText "/[a-z]\x7b2,\x7d/").parse .pattern (some 12) = .ok n
      ∧ ∀ part ∈ n.parts, checkBalance part = .ok () := by
  constructor
  · obtain ⟨n, hn⟩ : ∃ n, (⟨"/x", ["+/g"], [.character (.ofCode 'n')]⟩ : Template).parse .pattern
        none = .ok n := exists_of_isOk (by decide +kernel)
    have hs : ∀ sub ∈ [Node.character (.ofCode 'n')], checkBalance sub.tokens = .ok () := by
      intro sub hsub
      rw [List.mem_singleton.1 hsub]
      rfl
    exact ⟨n, hn, ((checkBalance_of_parse hn).1 hs).1⟩
  · obtain ⟨n, hn⟩ : ∃ n, (ofText "/[a-z]\x7b2,\x7d/").parse .pattern (some 12) = .ok n :=
      exists_of_isOk (by decide +kernel)
    exact ⟨n, hn, (checkBalance_of_parse hn).2 rfl⟩

end Template

end RegexLiteral
