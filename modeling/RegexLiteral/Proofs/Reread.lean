import RegexLiteral.Proofs.Legible

/-!
# Reading a tree again

A derivation without nodes has a legible tree (`Written.Pattern.legible`), and a genuine tree that
is legible has such a derivation (`Written.exists_pattern`). So a tree that a template is read as is
read again from its text exactly if it is legible (`Template.reread_iff`). Nodes are put in by their
type alone, so they may run together with what stands beside them.
-/

namespace RegexLiteral

namespace Written

/-! ## Atoms -/

theorem Atom.legible {a : Atom} (h : Textual a.items) : a.tree.Legible := by
  cases a with
  | literal c hc =>
    refine ⟨fun d hd hcd => hc ?_, ?_⟩
    · rwa [ofChar_inj.1 hcd]
    · rintro ⟨⟩
  | pair code =>
    rw [tree]
    split
    · trivial
    · split
      · trivial
      · rename_i hg
        refine ⟨fun d _ => ?_, fun hcode => hg (ofCode_inj.1 hcode)⟩
        rintro ⟨⟩
  | charClass body =>
    refine ClassAtom.charClass_legible fun a ha i hi => h i ?_
    simp only [items, List.cons_append, List.mem_cons, List.mem_append, List.mem_flatMap]
    exact .inr (.inl ⟨a, ha, hi⟩)
  | node n a ha => exact absurd h not_textual_node

theorem exists_atom {a : RegexLiteral.Atom} (hg : a.Genuine) (hl : a.Legible) :
    ∃ v : Atom, Textual v.items ∧ v.tree = a := by
  cases hg with
  | character hc =>
    cases hc with
    | @literal c hc ht => exact ⟨.literal c fun hr => hl.1 c hr rfl, textual_singleton ht, rfl⟩
    | @escaped code hw ht =>
      have hcode : code ≠ 'g' := by
        rintro rfl
        exact hl.2 rfl
      exact ⟨.pair code, textual_pair ht, by rw [Atom.tree, if_neg hw, if_neg hcode]⟩
  | @characterClass c hc =>
    obtain ⟨body, hbody, rfl⟩ := ClassAtom.exists_charClass hc hl
    refine ⟨.charClass body, ?_, rfl⟩
    have hopen : ¬ isLineTerminator '[' := by decide
    have hclose : Textual [.char ']'] := textual_singleton (by decide)
    rw [Atom.items, List.cons_append, textual_cons, textual_append, textual_flatMap]
    exact ⟨.char hopen, hbody, hclose⟩
  | wordCharacterSet hs =>
    obtain @⟨code, hw⟩ := hs
    exact ⟨.pair code, textual_pair (not_isLineTerminator_of_isWordCode hw),
      by rw [Atom.tree, if_pos hw]⟩
  | gap => exact ⟨.pair 'g', textual_pair (by decide), rfl⟩

/-! ## Elements -/

theorem Number.textual (n : Number) : Textual n.items := by
  refine textual_map_char.2 fun d hd ht => ?_
  have hdigit := n.isDigit_of_mem d hd
  rcases isLineTerminator_iff.1 ht with rfl | rfl | rfl | rfl <;> cases hdigit

theorem Sigil.textual (s : Sigil) : Textual s.items := by
  have hopen : (Item.char '\x7b').Textual := .char (by decide)
  have hcomma : (Item.char ',').Textual := .char (by decide)
  have hclose : Textual [.char '\x7d'] := textual_singleton (by decide)
  cases s with
  | plus | star | question => exact textual_singleton (by decide)
  | exactly n =>
    rw [items, List.cons_append, textual_cons, textual_append]
    exact ⟨hopen, n.textual, hclose⟩
  | atLeast n =>
    rw [items, List.cons_append, textual_cons, textual_append, textual_cons]
    exact ⟨hopen, n.textual, hcomma, hclose⟩
  | between n m _ =>
    rw [items, List.append_assoc, List.cons_append, textual_cons, textual_append, List.cons_append,
      textual_cons, textual_append]
    exact ⟨hopen, n.textual, hcomma, m.textual, hclose⟩

theorem Element.legible {e : Element} (h : Textual e.items) : e.tree.Legible := by
  cases e with
  | atom a => exact Atom.legible h
  | repeated a s => exact Atom.legible (textual_append.1 h).1
  | quantifier q => exact absurd h not_textual_node

theorem exists_element {e : RegexLiteral.Element} (hg : e.Genuine) (hl : e.Legible) :
    ∃ v : Element, Textual v.items ∧ v.tree = e := by
  cases e with
  | atom a =>
    obtain ⟨v, hv, rfl⟩ := exists_atom hg hl
    exact ⟨.atom v, hv, rfl⟩
  | quantifier q =>
    obtain ⟨a, sigil, min, max⟩ := q
    obtain ⟨s, hs, hmin, hmax⟩ := hg.sigil
    obtain ⟨v, hv, rfl⟩ := exists_atom hg.atom hl
    obtain rfl : sigil = s.tree := hs
    obtain rfl : min = s.min := hmin
    obtain rfl : max = s.max := hmax
    exact ⟨.repeated v s, textual_append.2 ⟨hv, s.textual⟩, rfl⟩

theorem exists_elements {es : List RegexLiteral.Element} (hg : ∀ e ∈ es, e.Genuine)
    (hl : ∀ e ∈ es, e.Legible) :
    ∃ vs : List Element, Textual (vs.flatMap Element.items) ∧ vs.map Element.tree = es := by
  induction es with
  | nil => exact ⟨[], by simp [Textual], rfl⟩
  | cons e es ih =>
    rw [List.forall_mem_cons] at hg hl
    obtain ⟨v, hv, rfl⟩ := exists_element hg.1 hl.1
    obtain ⟨vs, hvs, rfl⟩ := ih hg.2 hl.2
    exact ⟨v :: vs, textual_append.2 ⟨hv, hvs⟩, rfl⟩

/-! ## Alternatives -/

theorem opensBraces_iff_written {is : List Item} (h : Textual is) :
    OpensBraces is ↔ ∃ cs, BraceForm cs ∧ cs <+: written is := by
  have hinj : Function.Injective Item.char := fun _ _ => Item.char.inj
  unfold OpensBraces
  rw [h.eq_map, written_map_char]
  simp only [List.prefix_map_iff_of_injective hinj]

theorem fits_iff : ∀ {es : List Element}, Textual (es.flatMap Element.items) →
    (Fits es ↔ BracesKept (es.map Element.tree))
  | [], _ => Iff.rfl
  | e :: es, h => by
    have hbraces : OpensBraces ((e :: es).flatMap Element.items) ↔ ∃ cs, BraceForm cs
        ∧ cs <+: spelled (((e :: es).map Element.tree).flatMap RegexLiteral.Element.tokens) := by
      rw [opensBraces_iff_written h, Element.spelled_trees]
    exact and_congr (not_congr hbraces) (fits_iff (textual_append.1 h).2)

theorem Alternative.legible {a : Alternative} (h : Textual a.items) : a.tree.Legible := by
  refine ⟨fun e he => ?_, (fits_iff h).1 a.fits⟩
  obtain ⟨v, hv, rfl⟩ := List.mem_map.1 he
  exact Element.legible (textual_flatMap.1 h v hv)

theorem exists_alternative {a : RegexLiteral.Alternative} (hg : a.Genuine) (hl : a.Legible) :
    ∃ v : Alternative, Textual v.items ∧ v.tree = a := by
  obtain ⟨es⟩ := a
  obtain ⟨vs, hvs, hes⟩ := exists_elements hg hl.elements
  have hfits : Fits vs := (fits_iff hvs).2 (hes ▸ hl.braces)
  exact ⟨⟨vs, hfits⟩, hvs, congrArg _ hes⟩

/-! ## Literals -/

theorem exists_flags {f : RegexLiteral.Flags} (hg : f.Genuine) :
    ∃ v : Flags, Textual v.items ∧ v.tree = f := by
  obtain ⟨fs, distinct, rfl⟩ := hg
  refine ⟨.letters fs distinct, fun i hi => ?_, rfl⟩
  obtain ⟨f, -, rfl⟩ := List.mem_map.1 hi
  exact .char (by cases f <;> decide)

theorem exists_rest {rs : List (Token × RegexLiteral.Alternative)}
    (hg : ∀ r ∈ rs, r.1 = .ofChar .punctuator '|' ∧ r.2.Genuine) (hl : ∀ r ∈ rs, r.2.Legible) :
    ∃ vs : List Alternative, Textual (vs.flatMap fun v => .char '|' :: v.items)
      ∧ vs.map (fun v => (Token.ofChar .punctuator '|', v.tree)) = rs := by
  induction rs with
  | nil => exact ⟨[], by simp [Textual], rfl⟩
  | cons r rs ih =>
    rw [List.forall_mem_cons] at hg hl
    obtain ⟨separator, a⟩ := r
    obtain ⟨v, hv, rfl⟩ := exists_alternative hg.1.2 hl.1
    obtain ⟨vs, hvs, rfl⟩ := ih hg.2 hl.2
    obtain rfl : separator = .ofChar .punctuator '|' := hg.1.1
    have hbar : (Item.char '|').Textual := .char (by decide)
    exact ⟨v :: vs, textual_append.2 ⟨textual_cons.2 ⟨hbar, hv⟩, hvs⟩, rfl⟩

theorem Pattern.textual_items {v : Pattern} : Textual v.items ↔ Textual v.first.items
    ∧ Textual (v.rest.flatMap fun a => .char '|' :: a.items) ∧ Textual v.flags.items := by
  have hslash : (Item.char '/').Textual := .char (by decide)
  simp only [items, List.cons_append, List.append_assoc, textual_cons, textual_append, hslash,
    true_and]

theorem Pattern.legible {v : Pattern} (h : Textual v.items) : v.tree.Legible := by
  obtain ⟨hfirst, hrest, -⟩ := textual_items.1 h
  intro a ha
  obtain rfl | ha := List.mem_cons.1 ha
  · exact Alternative.legible hfirst
  · obtain ⟨r, hr, rfl⟩ := List.mem_map.1 ha
    obtain ⟨w, hw, rfl⟩ := List.mem_map.1 hr
    exact Alternative.legible (textual_cons.1 (textual_flatMap.1 hrest w hw)).2

theorem exists_pattern {p : RegexLiteral.Pattern} (hg : p.Genuine) (hl : p.Legible) :
    ∃ v : Pattern, Textual v.items ∧ v.tree = p := by
  obtain ⟨openToken, first, rest, closeToken, flags⟩ := p
  obtain ⟨v, hv, rfl⟩ := exists_alternative hg.first (hl _ List.mem_cons_self)
  obtain ⟨vs, hvs, rfl⟩ := exists_rest hg.rest fun r hr =>
    hl _ (List.mem_cons_of_mem _ (List.mem_map_of_mem hr))
  obtain ⟨f, hf, rfl⟩ := exists_flags hg.flags
  obtain rfl : openToken = _ := hg.opens
  obtain rfl : closeToken = _ := hg.closes
  exact ⟨⟨v, vs, f⟩, Pattern.textual_items.2 ⟨hv, hvs, hf⟩, rfl⟩

end Written

/-! ## Templates -/

/-- A genuine tree is read again from its text exactly if it is legible. -/
theorem Pattern.Genuine.parsePattern_text_iff {p : Pattern} (hg : p.Genuine) :
    parsePattern (Node.pattern p).text = .ok p ↔ p.Legible := by
  rw [parsePattern_eq_ok_iff]
  constructor
  · intro hex
    obtain ⟨hs, v, hv, -, rfl⟩ := hex
    exact Written.Pattern.legible (hv ▸ textual_map_char.2 hs)
  · intro hl
    obtain ⟨v, hv, rfl⟩ := Written.exists_pattern hg hl
    have htext : (Node.pattern v.tree).text.toList = written v.items :=
      (Written.pattern v).toList_text_tree
    rw [htext]
    exact ⟨textual_map_char.1 (hv.eq_map ▸ hv), v, hv.eq_map,
      fun w hw => Written.Pattern.items_inj hw, rfl⟩

theorem exists_ok_of_any {ε α : Type} {x : Except ε α} {f : α → Bool} (h : x.toOption.any f) :
    ∃ a, x = .ok a ∧ f a := by
  cases x with
  | ok a => exact ⟨a, rfl, h⟩
  | error e => cases h

/-- A node that is found in what is read in the source. -/
theorem Node.fromSource_of_any {n : Node} {s : String}
    (h : (parsePattern s).toOption.any fun p => n ∈ p.nodes) : n.FromSource := by
  obtain ⟨p, hp, hn⟩ := exists_ok_of_any h
  exact ⟨s, p, hp, of_decide_eq_true hn⟩

namespace Template

theorem exists_pattern_of_parse {t : Template} {fuel : Option Nat} {n : Node}
    (h : t.parse .pattern fuel = .ok n) : ∃ p, n = .pattern p := by
  obtain ⟨w, hw, -, -, rfl⟩ := parse_eq_ok_iff.1 h
  cases w with
  | flags f => cases hw
  | pattern v => exact ⟨v.tree, rfl⟩

/-- What is read with parts of sources put in is a literal, and it is read again from its text
exactly if none of them runs together with what stands beside it. -/
theorem reread_iff {t : Template} {fuel : Option Nat} {n : Node}
    (h : t.parse .pattern fuel = .ok n) (hnodes : ∀ n ∈ t.substitutions, n.FromSource) :
    ∃ p, n = .pattern p ∧ (parsePattern n.text = .ok p ↔ p.Legible) := by
  obtain ⟨p, rfl⟩ := exists_pattern_of_parse h
  have hg : p.Genuine := genuine_of_parse h fun n hn => (hnodes n hn).genuine
  exact ⟨p, rfl, hg.parsePattern_text_iff⟩

theorem reread_caret_outside_class : ∃ p : Pattern,
    (⟨"/x", ["+]/"], [.character (.ofChar '^')]⟩ : Template).parse .pattern none = .ok (.pattern p)
      ∧ parsePattern (Node.pattern p).text = .ok p ∧ p.Legible := by
  have hcaret : ∀ n ∈ [Node.character (.ofChar '^')], n.FromSource :=
    List.forall_mem_singleton.2 (Node.fromSource_of_any (s := "/^/") (by decide +kernel))
  obtain ⟨n, hn, hagain⟩ := exists_ok_of_any
    (x := (⟨"/x", ["+]/"], [.character (.ofChar '^')]⟩ : Template).parse .pattern none)
    (f := fun n => (parsePattern n.text).toOption.any fun q => .pattern q = n) (by decide +kernel)
  obtain ⟨q, hq, hqn⟩ := exists_ok_of_any hagain
  obtain ⟨p, rfl, hiff⟩ := reread_iff hn hcaret
  obtain rfl : q = p := Node.pattern.inj (of_decide_eq_true hqn)
  exact ⟨q, hn, hq, hiff.1 hq⟩

/-- A caret from outside of a class, put first into one, negates it when the class is read again. -/
theorem not_reread_caret_in_class :
    (∀ n ∈ [Node.character (.ofChar '^')], n.FromSource) ∧ ∃ p : Pattern,
      (⟨"/[", ["a]/"], [.character (.ofChar '^')]⟩ : Template).parse .pattern none
          = .ok (.pattern p)
        ∧ parsePattern (Node.pattern p).text ≠ .ok p := by
  refine ⟨List.forall_mem_singleton.2 (Node.fromSource_of_any (s := "/^/") (by decide +kernel)), ?_⟩
  obtain ⟨n, hn, hother⟩ := exists_ok_of_any
    (x := (⟨"/[", ["a]/"], [.character (.ofChar '^')]⟩ : Template).parse .pattern none)
    (f := fun n => (parsePattern n.text).toOption.all fun q => .pattern q ≠ n) (by decide +kernel)
  obtain ⟨p, rfl⟩ := exists_pattern_of_parse hn
  refine ⟨p, hn, fun hp => ?_⟩
  rw [hp] at hother
  exact of_decide_eq_true hother rfl

end Template

end RegexLiteral
