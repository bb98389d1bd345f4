import RegexLiteral.Node.Family

/-!
# Trees that differ in embedded nodes only

`Alike ns ms a b` says that `a` and `b` are the same but for the nodes that were put into them:
those of `a` are `ns` and those of `b` are `ms`, one after another in the order of the source, and
each stands where its partner stands. A likeness is said of every part of a tree, and what stands
side by side has the nodes of the one part before those of the other (`Row`).
-/

namespace RegexLiteral

/-- A relation of two parts that says which nodes were put into the one and into the other. -/
abbrev Likeness (α : Type) := List Node → List Node → α → α → Prop

namespace Likeness

variable {α : Type}

inductive Same : Likeness α
  | refl (a : α) : Same [] [] a a

inductive Maybe (R : Likeness α) : Likeness (Option α)
  | none : Maybe R [] [] none none
  | some {ns ms : List Node} {a b : α} (h : R ns ms a b) : Maybe R ns ms (some a) (some b)

inductive Row (R : Likeness α) : Likeness (List α)
  | nil : Row R [] [] [] []
  | cons {ns ms ns' ms' : List Node} {a b : α} {as bs : List α} (h : R ns ms a b)
    (hs : Row R ns' ms' as bs) : Row R (ns ++ ns') (ms ++ ms') (a :: as) (b :: bs)

/-- What is like behind nodes that come first. -/
def after (R : Likeness α) (ns ms : List Node) : Likeness α :=
  fun ns' ms' => R (ns ++ ns') (ms ++ ms')

end Likeness

open Likeness

/-! ## Classes -/

inductive ClassElement.Alike : Likeness ClassElement
  | same (e : ClassElement) : Alike [] [] e e
  | spliced {n m : Node} {e f : ClassElement} (ht : n.type = m.type)
    (he : n.classElement? = some e) (hf : m.classElement? = some f) : Alike [n] [m] e f
  | range {ns ms ns' ms' : List Node} {a b c d : Character} (sigil : Token)
    (hmin : Alike ns ms (.character a) (.character b))
    (hmax : Alike ns' ms' (.character c) (.character d)) :
    Alike (ns ++ ns') (ms ++ ms') (.range ⟨a, sigil, c⟩) (.range ⟨b, sigil, d⟩)

inductive CharacterClass.Alike : Likeness CharacterClass
  | mk {ns ms : List Node} {es fs : List ClassElement} (openToken : Token)
    (negateToken : Option Token) (closeToken : Token) (h : Row ClassElement.Alike ns ms es fs) :
    Alike ns ms ⟨openToken, negateToken, es, closeToken⟩ ⟨openToken, negateToken, fs, closeToken⟩

/-! ## Elements -/

inductive Atom.Alike : Likeness Atom
  | same (a : Atom) : Alike [] [] a a
  | charClass {ns ms : List Node} {a b : CharacterClass} (h : CharacterClass.Alike ns ms a b) :
    Alike ns ms (.characterClass a) (.characterClass b)
  | spliced {n m : Node} {a b : Atom} (ht : n.type = m.type) (ha : n.element? = some (.atom a))
    (hb : m.element? = some (.atom b)) : Alike [n] [m] a b

inductive Element.Alike : Likeness Element
  | atom {ns ms : List Node} {a b : Atom} (h : Atom.Alike ns ms a b) :
    Alike ns ms (.atom a) (.atom b)
  | repeated {ns ms : List Node} {a b : Atom} (h : Atom.Alike ns ms a b) (sigil : Sigil) (min : Nat)
    (max : Bound) :
    Alike ns ms (.quantifier ⟨a, sigil, min, max⟩) (.quantifier ⟨b, sigil, min, max⟩)
  | quantifier (q r : Quantifier) :
    Alike [.quantifier q] [.quantifier r] (.quantifier q) (.quantifier r)

inductive Alternative.Alike : Likeness Alternative
  | mk {ns ms : List Node} {es fs : List Element} (h : Row Element.Alike ns ms es fs) :
    Alike ns ms ⟨es⟩ ⟨fs⟩

/-! ## Literals -/

/-- An alternative behind its separator. -/
inductive Alternative.AlikeBehind : Likeness (Token × Alternative)
  | mk {ns ms : List Node} {a b : Alternative} (separator : Token)
    (h : Alternative.Alike ns ms a b) :
    AlikeBehind ns ms (separator, a) (separator, b)

inductive Flags.Alike : Likeness Flags
  | same (f : Flags) : Alike [] [] f f
  | spliced (f g : Flags) : Alike [.flags f] [.flags g] f g

inductive Pattern.Alike : Likeness Pattern
  | mk {ns ms ns' ms' ns'' ms'' : List Node} {a b : Alternative}
    {as bs : List (Token × Alternative)} {f g : Flags} (openToken closeToken : Token)
    (hfirst : Alternative.Alike ns ms a b) (hrest : Row Alternative.AlikeBehind ns' ms' as bs)
    (hflags : Flags.Alike ns'' ms'' f g) :
    Alike (ns ++ (ns' ++ ns'')) (ms ++ (ms' ++ ms'')) ⟨openToken, a, as, closeToken, f⟩
      ⟨openToken, b, bs, closeToken, g⟩

inductive Node.Alike : Likeness Node
  | pattern {ns ms : List Node} {p q : Pattern} (h : Pattern.Alike ns ms p q) :
    Alike ns ms (.pattern p) (.pattern q)
  | flags {ns ms : List Node} {f g : Flags} (h : Flags.Alike ns ms f g) :
    Alike ns ms (.flags f) (.flags g)

/-! ## Families -/

/-- Whether a node belongs to the family is told by its type alone, and what nodes of one type are
taken as is alike. -/
def Typewise {α : Type} (family? : Node → Option α) (R : Likeness α) : Prop :=
  ∀ n m : Node, n.type = m.type →
    (∃ a b, family? n = some a ∧ family? m = some b ∧ R [n] [m] a b)
      ∨ (family? n = none ∧ family? m = none)

theorem typewise_classElement? : Typewise Node.classElement? ClassElement.Alike := by
  intro n m ht
  cases n <;> cases m <;> simp only [Node.type, reduceCtorEq] at ht
  case character | characterClassRange | escapeSequence | wordCharacterSet =>
    exact .inl ⟨_, _, rfl, rfl, .spliced rfl rfl rfl⟩
  all_goals exact .inr ⟨rfl, rfl⟩

theorem typewise_element? : Typewise Node.element? Element.Alike := by
  intro n m ht
  cases n <;> cases m <;> simp only [Node.type, reduceCtorEq] at ht
  case character | escapeSequence | characterClass | wordCharacterSet | gap =>
    exact .inl ⟨_, _, rfl, rfl, .atom (.spliced rfl rfl rfl)⟩
  case quantifier q r => exact .inl ⟨_, _, rfl, rfl, .quantifier q r⟩
  all_goals exact .inr ⟨rfl, rfl⟩

theorem typewise_flags? : Typewise Node.flags? Flags.Alike := by
  intro n m ht
  cases n <;> cases m <;> simp only [Node.type, reduceCtorEq] at ht
  case flags f g => exact .inl ⟨_, _, rfl, rfl, .spliced f g⟩
  all_goals exact .inr ⟨rfl, rfl⟩

variable {ns ms : List Node}

/-- Elements that are alike are of the same type. -/
theorem ClassElement.Alike.type_eq {e f : ClassElement} (h : ClassElement.Alike ns ms e f) :
    e.type = f.type := by
  cases h with
  | same e => rfl
  | range sigil hmin hmax => rfl
  | @spliced n m e f ht he hf =>
    cases n <;> cases m <;> simp only [Node.type, reduceCtorEq] at ht <;>
      simp only [Node.classElement?, Option.some.injEq, reduceCtorEq] at he hf <;>
      subst he <;> subst hf <;> rfl

end RegexLiteral
