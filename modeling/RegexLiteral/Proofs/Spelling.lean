import RegexLiteral.Proofs.Written

/-!
# Trees spell their items

The tokens of a derivation's tree, one after another, are the characters of its items, with the
texts of the nodes where these stand (`Written.toList_text_tree`). Every character and every node
comes out once and in its place.
-/

namespace RegexLiteral

/-- The characters of the tokens, one after another. -/
def spelled (tokens : List Token) : List Char := tokens.flatMap fun t => t.text.toList

@[simp] theorem spelled_nil : spelled [] = [] := rfl

@[simp] theorem spelled_cons (t : Token) (ts : List Token) :
    spelled (t :: ts) = t.text.toList ++ spelled ts := rfl

@[simp] theorem spelled_append (a b : List Token) : spelled (a ++ b) = spelled a ++ spelled b :=
  List.flatMap_append

theorem toList_text (n : Node) : n.text.toList = spelled n.tokens := toList_joinText n.tokens

/-- What the items write. -/
def written (is : List Item) : List Char := is.flatMap Item.written

@[simp] theorem written_nil : written [] = [] := rfl

@[simp] theorem written_cons (i : Item) (is : List Item) :
    written (i :: is) = i.written ++ written is := rfl

@[simp] theorem written_append (is js : List Item) :
    written (is ++ js) = written is ++ written js :=
  List.flatMap_append

@[simp] theorem written_map_char (cs : List Char) : written (cs.map .char) = cs := by
  induction cs with
  | nil => rfl
  | cons c cs ih => rw [List.map_cons, written_cons, ih]; rfl

namespace Written

/-! ## Classes -/

@[simp] theorem spelled_ofChar (c : Char) : spelled (Character.ofChar c).tokens = [c] := by
  simp [Character.ofChar, Character.tokens]

@[simp] theorem spelled_ofCode (code : Char) :
    spelled (Character.ofCode code).tokens = ['\\', code] := by
  simp [Character.ofCode, EscapeSequence.ofCode, Character.tokens, EscapeSequence.tokens]

@[simp] theorem spelled_wordSet (code : Char) :
    spelled (WordCharacterSet.ofCode code).tokens = ['\\', code] := by
  simp [WordCharacterSet.ofCode, WordCharacterSet.tokens]

@[simp] theorem spelled_gap (code : Char) : spelled (Gap.ofCode code).tokens = ['\\', code] := by
  simp [Gap.ofCode, Gap.tokens]

theorem tokens_of_classElement? {n : Node} {e : ClassElement} (h : n.classElement? = some e) :
    e.tokens = n.tokens := by
  cases n <;> simp only [Node.classElement?, Option.some.injEq, reduceCtorEq] at h <;> subst h <;>
    rfl

namespace ClassAtom

theorem spelled_element (a : ClassAtom) : spelled a.element.tokens = written a.items := by
  cases a with
  | char c _ => simp [element, items, ClassElement.tokens, Item.written]
  | pair code =>
    rw [element]
    split <;> simp [items, ClassElement.tokens, Item.written]
  | node n e h =>
    rw [element, tokens_of_classElement? h]
    simp [items, Item.written, toList_text]

theorem spelled_elements (as : List ClassAtom) :
    spelled ((elements as).flatMap ClassElement.tokens) = written (as.flatMap items) := by
  fun_induction elements as with
  | case1 => rfl
  | case2 a => simp [spelled_element]
  | case3 a b => simp [spelled_element]
  | case4 a b c rest min max hmax hminus hmin ih =>
    have hb : written b.items = ['-'] := by
      cases b with
      | char d _ =>
        obtain rfl := eq_of_beq hminus
        rfl
      | pair code => cases hminus
      | node n e _ => cases hminus
    have ha : spelled min.tokens = written a.items := by
      rw [← spelled_element, element_eq hmin]
      rfl
    have hc : spelled max.tokens = written c.items := by
      rw [← spelled_element, element_eq hmax]
      rfl
    simp [ClassElement.tokens, CharacterClassRange.tokens, ha, hb, hc, ih]
  | case5 a b c rest h ih => simpa [spelled_element] using ih

theorem spelled_charClass (body : List ClassAtom) :
    spelled (charClass body).tokens = written (Atom.charClass body).items := by
  have hbody : spelled (negation body).1.toList ++ written ((negation body).2.flatMap items)
      = written (body.flatMap items) := by
    unfold negation
    split
    · split
      · rename_i h
        simp [h, items, Item.written]
      · rfl
    · rfl
  rw [Atom.items, charClass, CharacterClass.tokens]
  simp [spelled_elements, ← hbody, Item.written]

end ClassAtom

/-! ## Elements -/

theorem tokens_of_element? {n : Node} {e : RegexLiteral.Element} (h : n.element? = some e) :
    e.tokens = n.tokens := by
  cases n <;> simp only [Node.element?, Option.some.injEq, reduceCtorEq] at h <;> subst h <;> rfl

theorem Atom.spelled_tree (a : Atom) : spelled a.tree.tokens = written a.items := by
  cases a with
  | literal c _ => simp [tree, items, RegexLiteral.Atom.tokens, Item.written]
  | pair code =>
    rw [tree]
    split
    · simp [items, RegexLiteral.Atom.tokens, Item.written]
    · split <;> simp [items, RegexLiteral.Atom.tokens, Item.written]
  | charClass body => exact ClassAtom.spelled_charClass body
  | node n a h =>
    have ha : a.tokens = n.tokens := tokens_of_element? h
    simp [tree, items, ha, Item.written, toList_text]

theorem Sigil.spelled_tree (s : Sigil) : spelled s.tree.tokens = written s.items := by
  cases s <;> simp [tree, items, RegexLiteral.Sigil.tokens, Braces.tokens, Item.written, openBrace,
    closeBrace, comma, Number.items, Number.token, Token.plain]

theorem Element.spelled_tree (e : Element) : spelled e.tree.tokens = written e.items := by
  cases e with
  | atom a => exact a.spelled_tree
  | repeated a s =>
    rw [tree, items, written_append, ← a.spelled_tree, ← s.spelled_tree, ← spelled_append]
    rfl
  | quantifier q => simp [tree, items, Item.written, toList_text, RegexLiteral.Element.tokens,
      Node.tokens]

theorem Element.spelled_trees (es : List Element) :
    spelled ((es.map tree).flatMap RegexLiteral.Element.tokens) = written (es.flatMap items) := by
  induction es with
  | nil => rfl
  | cons e es ih => rw [List.map_cons, List.flatMap_cons, List.flatMap_cons, spelled_append,
      written_append, e.spelled_tree, ih]

theorem Alternative.spelled_tree (a : Alternative) : spelled a.tree.tokens = written a.items :=
  Element.spelled_trees a.elements

/-! ## Literals -/

theorem Flags.spelled_tree (f : Flags) : spelled f.tree.tokens = written f.items := by
  cases f with
  | letters fs _ =>
    change spelled (fs.map fun f => .ofChar .keyword f.letter)
      = written (fs.map fun f => .char f.letter)
    induction fs with
    | nil => rfl
    | cons f fs ih => simp_all [Item.written]
  | node f => simp [tree, items, Item.written, toList_text, Node.tokens]

theorem Pattern.spelled_tree (p : Pattern) : spelled p.tree.tokens = written p.items := by
  have hrest : spelled ((p.rest.map fun a => (Token.ofChar .punctuator '|', a.tree)).flatMap
        fun r => r.1 :: r.2.tokens)
      = written (p.rest.flatMap fun a => .char '|' :: a.items) := by
    induction p.rest with
    | nil => rfl
    | cons a as ih =>
      rw [List.map_cons, List.flatMap_cons, List.flatMap_cons, spelled_append, written_append, ih,
        spelled_cons, written_cons, a.spelled_tree, Token.toList_text_ofChar]
      rfl
  rw [tree, items, RegexLiteral.Pattern.tokens]
  simp [hrest, Alternative.spelled_tree, Flags.spelled_tree, Item.written]

end Written

/-- The text of a tree is what its items write. -/
theorem Written.toList_text_tree (w : Written) : w.tree.text.toList = written w.items := by
  rw [toList_text]
  cases w with
  | pattern p => exact p.spelled_tree
  | flags f => exact f.spelled_tree

end RegexLiteral
