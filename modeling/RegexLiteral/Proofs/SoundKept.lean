import RegexLiteral.Proofs.ClassBody
import RegexLiteral.Proofs.Derivation
import RegexLiteral.Proofs.Sound
import RegexLiteral.Proofs.Spelling

/-!
# Reading makes sound nodes

A tree is sound if the nodes put into it are (`Template.sound_of_parse`). The tokens that a
derivation makes by itself are of one character, or a run of digits, and carry the marks that the
rules ask for.
-/

namespace RegexLiteral

variable {is : List Item}

def SoundNodes (is : List Item) : Prop := ∀ n, .node n ∈ is → n.Sound

theorem Token.rules_ofChar (category : Category) (c : Char) : (ofChar category c).Rules := by
  intro h
  have hchars : (ofChar category c).text.toList = [c] := toList_text_ofChar category c
  rw [h] at hchars
  cases hchars

/-! ## Characters and escapes -/

theorem rules_ofChar (c : Char) : (Character.ofChar c).Rules := ⟨rfl, c, rfl⟩

theorem built_ofChar (c : Char) : (Character.ofChar c).Built := Token.rules_ofChar _ _

theorem EscapeSequence.built_ofCode (code : Char) : (EscapeSequence.ofCode code).Built where
  escape := Token.rules_ofChar .punctuator '\\'
  code := Token.rules_ofChar .keyword code
  rules := ⟨rfl, rfl, rfl, code, rfl, rfl⟩

theorem WordCharacterSet.built_ofCode {code : Char} (h : Parser.isWordCode code) :
    (WordCharacterSet.ofCode code).Built where
  escapeToken := Token.rules_ofChar _ _
  value := Token.rules_ofChar _ _
  rules := by
    unfold Parser.isWordCode at h
    rw [Bool.or_eq_true, beq_iff_eq, beq_iff_eq] at h
    exact ⟨rfl, h.imp (fun hw => by rw [hw]; rfl) fun hw => by rw [hw]; rfl⟩

theorem Gap.built_ofCode : (Gap.ofCode 'g').Built where
  escapeToken := Token.rules_ofChar _ _
  value := Token.rules_ofChar _ _
  rules := ⟨rfl, rfl⟩

theorem sound_of_classElement? {n : Node} {e : ClassElement} (h : n.classElement? = some e)
    (hn : n.Sound) : e.Built ∧ Character.AllKeep e.characters := by
  obtain ⟨hbuilt, hliterals⟩ := hn
  cases n <;> simp only [Node.classElement?, Option.some.injEq, reduceCtorEq] at h <;> subst h
  case escapeSequence e => exact ⟨hbuilt, Character.allKeep_singleton.2 trivial⟩
  all_goals exact ⟨hbuilt, hliterals⟩

theorem sound_of_element? {n : Node} {e : Element} (h : n.element? = some e) (hn : n.Sound) :
    e.Built ∧ Character.AllKeep e.characters := by
  obtain ⟨hbuilt, hliterals⟩ := hn
  cases n <;> simp only [Node.element?, Option.some.injEq, reduceCtorEq] at h <;> subst h
  case escapeSequence e => exact ⟨hbuilt, Character.allKeep_singleton.2 trivial⟩
  all_goals exact ⟨hbuilt, hliterals⟩

namespace Written

/-! ## Classes -/

namespace ClassAtom

theorem sound_element {a : ClassAtom} (h : SoundNodes a.items) :
    a.element.Built ∧ Character.AllKeep a.element.characters := by
  cases a with
  | char c _ =>
    exact ⟨built_ofChar c, Character.allKeep_singleton.2 (rules_ofChar c)⟩
  | pair code =>
    rw [element]
    split
    · rename_i hcode
      exact ⟨WordCharacterSet.built_ofCode hcode, Character.allKeep_nil⟩
    · exact ⟨EscapeSequence.built_ofCode code, Character.allKeep_singleton.2 trivial⟩
  | node n e he => exact sound_of_classElement? he (h n List.mem_cons_self)

theorem sound_elements {as : List ClassAtom}
    (h : ∀ a ∈ as, a.element.Built ∧ Character.AllKeep a.element.characters) :
    ∀ e ∈ elements as, e.Built ∧ Character.AllKeep e.characters := by
  fun_induction elements as with
  | case1 => simp
  | case2 a => simpa using h
  | case3 a b => simpa using h
  | case4 a b c rest min max hmax hminus hmin ih =>
    simp only [List.forall_mem_cons] at h ⊢
    obtain ⟨ha, -, hc, hrest⟩ := h
    rw [element_eq hmin] at ha
    rw [element_eq hmax] at hc
    refine ⟨⟨⟨ha.1, Token.rules_ofChar _ _, hc.1, rfl⟩, ?_⟩, ih hrest⟩
    have hends : Character.AllKeep ([min] ++ [max]) := List.forall_mem_append.2 ⟨ha.2, hc.2⟩
    exact hends
  | case5 a b c rest hno ih =>
    rw [List.forall_mem_cons] at h ⊢
    exact ⟨h.1, ih h.2⟩

theorem sound_charClass {body : List ClassAtom} (h : SoundNodes (body.flatMap items)) :
    (charClass body).Built ∧ Character.AllKeep (charClass body).characters := by
  have hatom : ∀ a ∈ (negation body).2, a.element.Built
      ∧ Character.AllKeep a.element.characters := by
    intro a ha
    refine sound_element fun n hn => h n ?_
    exact List.mem_flatMap.2 ⟨a, mem_of_mem_negation ha, hn⟩
  have helements := sound_elements hatom
  refine ⟨⟨Token.rules_ofChar .punctuator '[', fun t ht => ?_, fun e he => (helements e he).1,
    Token.rules_ofChar .punctuator ']', ⟨rfl, rfl⟩, ⟨rfl, rfl⟩, fun t ht => ?_⟩, ?_⟩
  · rw [negateToken_eq body t ht]
    exact Token.rules_ofChar _ _
  · rw [negateToken_eq body t ht]
    rfl
  · exact Character.allKeep_flatMap.2 fun e he => (helements e he).2

end ClassAtom

/-! ## Elements -/

theorem Atom.sound_tree {a : Atom} (h : SoundNodes a.items) :
    a.tree.Built ∧ Character.AllKeep a.tree.characters := by
  cases a with
  | literal c _ =>
    exact ⟨built_ofChar c, Character.allKeep_singleton.2 (rules_ofChar c)⟩
  | pair code =>
    rw [tree]
    split
    · rename_i hcode
      exact ⟨WordCharacterSet.built_ofCode hcode, Character.allKeep_nil⟩
    · split
      · rename_i hcode
        exact ⟨hcode ▸ Gap.built_ofCode, Character.allKeep_nil⟩
      · exact ⟨EscapeSequence.built_ofCode code, Character.allKeep_singleton.2 trivial⟩
  | charClass body =>
    refine ClassAtom.sound_charClass fun n hn => h n ?_
    exact List.mem_cons_of_mem _ (List.mem_append_left _ hn)
  | node n a hn => exact sound_of_element? hn (h n List.mem_cons_self)

theorem Number.rules_token (n : Number) : n.token.Rules := by
  intro h
  have hchars : n.token.text.toList = n.digits := by simp [token, Token.plain]
  rw [h] at hchars
  exact n.digits_ne_nil hchars.symm

theorem Number.isSome_readNumber? (n : Number) : (Text.readNumber? n.token.text).isSome := by
  have h : Text.readNumber? n.token.text = some n.value := n.reads
  rw [h]
  rfl

theorem Sigil.built_tree (s : Sigil) : s.tree.Built := by
  have hopen : openBrace.Rules := Token.rules_ofChar .punctuator '\x7b'
  have hclose : closeBrace.Rules := Token.rules_ofChar .punctuator '\x7d'
  have hcomma : ∀ t ∈ some comma, t.Rules ∧ t.text = "," := by
    intro t ht
    rw [← Option.some.inj ht]
    exact ⟨Token.rules_ofChar .punctuator ',', rfl⟩
  have hnone {p : Token → Prop} : ∀ t ∈ (none : Option Token), p t :=
    fun t ht => absurd ht (Option.not_mem_none t)
  cases s with
  | plus | star | question => exact Token.rules_ofChar _ _
  | exactly n =>
    refine ⟨hopen, n.rules_token, hnone, hnone, hclose, ?_⟩
    exact ⟨⟨rfl, rfl⟩, ⟨rfl, rfl⟩, hnone, id, n.isSome_readNumber?, hnone⟩
  | atLeast n =>
    refine ⟨hopen, n.rules_token, fun t ht => (hcomma t ht).1, hnone, hclose, ?_⟩
    exact ⟨⟨rfl, rfl⟩, ⟨rfl, rfl⟩, fun t ht => (hcomma t ht).2, fun _ => rfl,
      n.isSome_readNumber?, hnone⟩
  | between min max _ =>
    have hmax : ∀ t ∈ some max.token, t.Rules ∧ (Text.readNumber? t.text).isSome := by
      intro t ht
      rw [← Option.some.inj ht]
      exact ⟨max.rules_token, max.isSome_readNumber?⟩
    refine ⟨hopen, min.rules_token, fun t ht => (hcomma t ht).1, fun t ht => (hmax t ht).1, hclose,
      ?_⟩
    exact ⟨⟨rfl, rfl⟩, ⟨rfl, rfl⟩, fun t ht => (hcomma t ht).2, fun _ => rfl,
      min.isSome_readNumber?, fun t ht => (hmax t ht).2⟩

theorem Element.sound_tree {e : Element} (h : SoundNodes e.items) :
    e.tree.Built ∧ Character.AllKeep e.tree.characters := by
  cases e with
  | atom a => exact Atom.sound_tree h
  | repeated a s =>
    obtain ⟨hbuilt, hliterals⟩ := Atom.sound_tree fun n hn => h n (List.mem_append_left _ hn)
    exact ⟨⟨hbuilt, s.built_tree, s.allows, s.bounds?_tree⟩, hliterals⟩
  | quantifier q =>
    obtain ⟨hbuilt, hliterals⟩ := h (.quantifier q) List.mem_cons_self
    exact ⟨hbuilt, hliterals⟩

theorem Alternative.sound_tree {a : Alternative} (h : SoundNodes a.items) :
    a.tree.Built ∧ Character.AllKeep a.tree.characters := by
  have helement (e : Element) (he : e ∈ a.elements) :
      e.tree.Built ∧ Character.AllKeep e.tree.characters :=
    Element.sound_tree fun n hn => h n (List.mem_flatMap.2 ⟨e, he, hn⟩)
  refine ⟨fun e he => ?_, Character.allKeep_flatMap.2 fun e he => ?_⟩
  · obtain ⟨e, hmem, rfl⟩ := List.mem_map.1 he
    exact (helement e hmem).1
  · obtain ⟨e, hmem, rfl⟩ := List.mem_map.1 he
    exact (helement e hmem).2

/-! ## Literals -/

theorem Flags.built_tree {f : Flags} (h : SoundNodes f.items) : f.tree.Built := by
  cases f with
  | letters fs hnodup =>
    refine ⟨fun t ht => ?_, fs, hnodup, ?_, fun flag => ?_⟩
    · obtain ⟨flag, -, rfl⟩ := List.mem_map.1 ht
      exact Token.rules_ofChar _ _
    · change (fs.map fun flag => Token.ofChar .keyword flag.letter).map Token.text = _
      rw [List.map_map]
      rfl
    · change (fs.foldl FlagSet.insert .none).has flag = true ↔ _
      rw [FlagSet.has_foldl_insert]
      simp
  | node f => exact (h (.flags f) List.mem_cons_self).built

theorem Pattern.sound_tree {p : Pattern} (h : SoundNodes p.items) :
    p.tree.Built ∧ Character.AllKeep p.tree.characters := by
  have hfirst : p.first.tree.Built ∧ Character.AllKeep p.first.tree.characters :=
    Alternative.sound_tree fun n hn => h n (by simp [items, hn])
  have hrest (a : Alternative) (ha : a ∈ p.rest) :
      a.tree.Built ∧ Character.AllKeep a.tree.characters := by
    refine Alternative.sound_tree fun n hn => h n ?_
    have hn' : Item.node n ∈ p.rest.flatMap fun a => .char '|' :: a.items :=
      List.mem_flatMap.2 ⟨a, ha, List.mem_cons_of_mem _ hn⟩
    exact List.mem_append_left _ (List.mem_append_right _ hn')
  have hall : ∀ a ∈ p.tree.alternatives, a.Built ∧ Character.AllKeep a.characters := by
    intro a ha
    rcases List.mem_cons.1 ha with rfl | ha
    · exact hfirst
    · obtain ⟨r, hr, rfl⟩ := List.mem_map.1 ha
      obtain ⟨a, hmem, rfl⟩ := List.mem_map.1 hr
      exact hrest a hmem
  have hbar : ∀ t ∈ p.tree.separatorTokens, t = .ofChar .punctuator '|' := by
    intro t ht
    obtain ⟨r, hr, rfl⟩ := List.mem_map.1 ht
    obtain ⟨a, -, rfl⟩ := List.mem_map.1 hr
    rfl
  refine ⟨⟨Token.rules_ofChar .punctuator '/', fun a ha => (hall a ha).1, fun t ht => ?_,
    Token.rules_ofChar .punctuator '/', Flags.built_tree fun n hn => h n ?_, ?_⟩,
    Character.allKeep_flatMap.2 fun a ha => (hall a ha).2⟩
  · rw [hbar t ht]
    exact Token.rules_ofChar _ _
  · exact List.mem_append_right _ (List.mem_cons_of_mem _ hn)
  · refine ⟨?_, fun t ht => ?_, ⟨rfl, rfl⟩, ⟨rfl, rfl⟩⟩
    · simp [RegexLiteral.Pattern.alternatives, RegexLiteral.Pattern.separatorTokens]
    · rw [hbar t ht]
      rfl

end Written

theorem Written.sound_tree {w : Written} (h : SoundNodes w.items) : w.tree.Sound := by
  cases w with
  | pattern p =>
    obtain ⟨hbuilt, hliterals⟩ := p.sound_tree h
    exact ⟨hbuilt, hliterals⟩
  | flags f => exact ⟨f.built_tree h, Character.allKeep_nil⟩

/-- What is read is sound if the nodes that are put in are. -/
theorem Template.sound_of_parse {t : Template} {production : Production} {fuel : Option Nat}
    {n : Node} (hs : ∀ sub ∈ t.substitutions, sub.Sound)
    (h : t.parse production fuel = .ok n) : n.Sound := by
  obtain ⟨w, -, hd, -, rfl⟩ := parse_eq_ok_iff.1 h
  refine w.sound_tree fun sub hsub => hs sub ?_
  rw [hd.nodes]
  exact List.mem_filterMap.2 ⟨.node sub, hsub, rfl⟩

end RegexLiteral
