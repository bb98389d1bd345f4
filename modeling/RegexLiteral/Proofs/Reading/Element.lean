import RegexLiteral.Proofs.Reading.Repetition

/-!
# Reading elements

An element is read where no sigil begins, and then the sigil behind it if there is one. What is left
does not begin with a sigil again.
-/

namespace RegexLiteral

namespace Written

variable {x : List Item}

theorem BeginsSigil.head (h : BeginsSigil x) :
    ∃ a ∈ '\x7b' :: signs, ∃ rest, x = .char a :: rest := by
  rcases h with ⟨a, ha, rest, h⟩ | h
  · exact ⟨a, List.mem_cons_of_mem _ ha, rest, h⟩
  · obtain ⟨rest, h⟩ := h.head
    exact ⟨_, List.mem_cons_self, rest, h⟩

/-- An element before what repeats it. -/
inductive Element.IsBare : Element → Prop
  | atom (a : Atom) : IsBare (atom a)
  | quantifier (q : Quantifier) : IsBare (quantifier q)

/-- The items in `used` behind the element `e` make it the element `e'`. -/
inductive Element.Repeats : Element → List Item → Element → Prop
  | same (e : Element) : Repeats e [] e
  | sigil (a : Atom) (s : Sigil) : Repeats (atom a) s.items (repeated a s)

theorem Element.Repeats.items_eq {e e' : Element} {used : List Item} (h : e.Repeats used e') :
    e'.items = e.items ++ used := by
  cases h with
  | same => rw [List.append_nil]
  | sigil a s => rfl

/-- Whatever element is written where a bare one is read, it is that one with what repeats it. -/
theorem Element.IsBare.exists_repeats {e e' : Element} {y : List Item} (he : e.IsBare)
    (h : e'.items ++ x = e.items ++ y) : ∃ used, e.Repeats used e' ∧ used ++ x = y := by
  cases he with
  | atom a =>
    cases e' with
    | atom b =>
      obtain ⟨rfl, hxy⟩ := Atom.items_append_inj h
      exact ⟨[], .same _, hxy⟩
    | repeated b s =>
      replace h : b.items ++ s.items ++ x = a.items ++ y := h
      rw [List.append_assoc] at h
      obtain ⟨rfl, hxy⟩ := Atom.items_append_inj h
      exact ⟨s.items, .sigil _ s, hxy⟩
    | quantifier q => exact absurd h.symm (a.items_ne_quantifier q)
  | quantifier q =>
    cases e' with
    | atom b => exact absurd h (b.items_ne_quantifier q)
    | repeated b s =>
      rw [Element.items, List.append_assoc] at h
      exact absurd h (b.items_ne_quantifier q)
    | quantifier r =>
      obtain ⟨hqr, hxy⟩ := List.cons.inj h
      obtain rfl := Node.quantifier.inj (Item.node.inj hqr)
      exact ⟨[], .same _, hxy⟩

theorem Sigil.allows (s : Sigil) : s.max.allows s.min = true := by
  cases s with
  | exactly n => simp [max, min, Bound.allows]
  | between n m h => exact decide_eq_true h
  | _ => rfl

/-- A sigil spells the bounds that the derivation gives it. -/
theorem Sigil.bounds?_tree (s : Sigil) : s.tree.bounds? = some (s.min, s.max) := by
  have hn (n : Number) : Text.readNumber? n.token.text = some n.value := n.reads
  cases s with
  | plus => rfl
  | star => rfl
  | question => rfl
  | exactly n => simp [tree, RegexLiteral.Sigil.bounds?, Braces.bounds?, hn, min, max]
  | atLeast n => simp [tree, RegexLiteral.Sigil.bounds?, Braces.bounds?, hn, min, max]
  | between n m h => simp [tree, RegexLiteral.Sigil.bounds?, Braces.bounds?, hn, min, max]

end Written

namespace Parser

open Written

variable {c c' : Cursor} {fails : Failure → Prop} {x : List Item}

theorem quantifier_eq (a : RegexLiteral.Atom) (s : Written.Sigil) :
    Quantifier.ofParts (.atom a) s.tree s.min s.max = .ok ⟨a, s.tree, s.min, s.max⟩ := by
  simp only [Quantifier.ofParts, Quantifier.check, s.allows, s.bounds?_tree, require, if_true]
  rfl

/-! ## Bare elements -/

/-- What has to stand at the cursor for an element to be read. -/
def ElementAhead (c : Cursor) : Prop :=
  ¬ BeginsSigil c.items ∧ ∃ (e : Written.Element) (rest : List Item), c.CanRead e.items rest

theorem ElementAhead.atom (h : ElementAhead c) (hk : c.kindAt 0 ≠ .interpolation) :
    ∃ (a : Written.Atom) (rest : List Item), c.CanRead a.items rest := by
  obtain ⟨-, e, rest, h⟩ := h
  cases e with
  | atom a => exact ⟨a, rest, h⟩
  | repeated a s => exact ⟨a, _, h.left⟩
  | quantifier q => exact absurd (Cursor.kindAt_zero h.items) hk

theorem ElementAhead.charClass (h : ElementAhead c) (hk : c.kindAt 0 = .bracketOpen) :
    ∃ body rest, c.CanRead (Atom.charClass body).items rest := by
  obtain ⟨a, rest, h⟩ := h.atom (by rw [hk]; decide)
  cases a with
  | literal a ha =>
    have hhead : Kind.ofChar a = .bracketOpen := (Cursor.kindAt_zero h.items).symm.trans hk
    obtain rfl := (Kind.ofChar_eq_iff rfl).1 hhead
    exact absurd (by decide) ha
  | pair code => cases (Cursor.kindAt_zero h.items).symm.trans hk
  | charClass body => exact ⟨body, rest, h⟩
  | node n e _ => cases (Cursor.kindAt_zero h.items).symm.trans hk

theorem ElementAhead.pair (h : ElementAhead c) (hk : c.kindAt 0 = .backslash) :
    ∃ code rest, c.CanRead [.char '\\', .char code] rest := by
  obtain ⟨a, rest, h⟩ := h.atom (by rw [hk]; decide)
  cases a with
  | literal a ha =>
    have hhead : Kind.ofChar a = .backslash := (Cursor.kindAt_zero h.items).symm.trans hk
    obtain rfl := (Kind.ofChar_eq_iff rfl).1 hhead
    exact absurd (by decide) ha
  | pair code => exact ⟨code, rest, h⟩
  | charClass body => cases (Cursor.kindAt_zero h.items).symm.trans hk
  | node n e _ => cases (Cursor.kindAt_zero h.items).symm.trans hk

theorem ElementAhead.node (h : ElementAhead c) (hk : c.kindAt 0 = .interpolation) :
    ∃ n rest, (Node.element? n).isSome ∧ c.CanRead [.node n] rest := by
  have hatom {a : Written.Atom} {x rest : List Item} (h : c.CanRead (a.items ++ x) rest) :
      ∃ n rest, (Node.element? n).isSome ∧ c.CanRead [.node n] rest := by
    have h := h.left
    cases a with
    | literal a _ =>
      exact absurd ((Cursor.kindAt_zero h.items).symm.trans hk) (Kind.ofChar_ne_interpolation a)
    | pair code => cases (Cursor.kindAt_zero h.items).symm.trans hk
    | charClass body => cases (Cursor.kindAt_zero h.items).symm.trans hk
    | node n e he => exact ⟨n, _, by rw [he]; rfl, h⟩
  obtain ⟨-, e, rest, h⟩ := h
  cases e with
  | atom a => exact hatom (x := []) (by rwa [List.append_nil])
  | repeated a s => exact hatom h
  | quantifier q => exact ⟨.quantifier q, rest, rfl, h⟩

theorem ElementAhead.looked (h : ElementAhead c) : ElementAhead c.looked := by
  obtain ⟨hs, e, rest, h⟩ := h
  exact ⟨hs, e, rest, Cursor.canRead_looked.2 h⟩

/-- The kinds that end no alternative and begin no sigil are those of literal characters. -/
theorem not_mem_reserved {a : Char}
    (hend : KindSet.alternativeEnds.contains (Kind.ofChar a) = false)
    (hopen : Kind.ofChar a ≠ .bracketOpen) (hslash : Kind.ofChar a ≠ .backslash)
    (hsign : a ∉ signs) : a ∉ reserved := by
  intro ha
  simp only [reserved, List.mem_cons, List.not_mem_nil, or_false] at ha
  rcases ha with rfl | rfl | rfl | rfl | rfl | rfl | rfl
  · exact absurd hend (by decide)
  · exact absurd hend (by decide)
  · exact hslash rfl
  · exact hopen rfl
  · exact hsign (by decide)
  · exact hsign (by decide)
  · exact hsign (by decide)

theorem element_yields (hend : KindSet.alternativeEnds.contains (c.kindAt 0) = false)
    (hreg : c.Regular) (hl : 3 ≤ c.looks) (hf : FailsUnless (ElementAhead c) fails) :
    Yields element c (fun r c' => ∃ e : Written.Element, e.IsBare ∧ r = e.tree
      ∧ c.Reaches e.items c' ∧ 12 ≤ c'.looks ∧ ¬ BeginsSigil c.items) fails := by
  have hl' : 2 ≤ c.looked.looks := by
    rw [Cursor.looks_looked]
    omega
  -- A sigil begins with a brace or a sign.
  have hhead {k : Kind} (hk : c.kindAt 0 = k)
      (hne : ∀ a ∈ '\x7b' :: signs, (Item.char a).kind ≠ k) : ¬ BeginsSigil c.items := by
    intro hb
    obtain ⟨a, ha, rest, hc⟩ := hb.head
    exact hne a ha ((Cursor.kindAt_zero hc).symm.trans hk)
  refine look_bind (by omega) ?_
  split
  · rename_i hk
    refine (characterClass_yields (c := c.looked) hk ⟨hreg.placed, hreg.delimited⟩ hl'
      (hf.mono fun h => h.looked.charClass hk)).bind ?_
    intro _ c' hpost
    obtain ⟨body, rfl, hr, hlooks⟩ := hpost
    exact yields_pure ⟨.atom (.charClass body), .atom _, rfl, Cursor.looked_reaches.1 hr, hlooks,
      hhead hk (by simp [signs, Item.kind, Kind.ofChar])⟩
  · rename_i hk
    refine (escape_yields (c := c.looked) hk hl' (hf.mono fun h => h.looked.pair hk)).bind ?_
    intro _ c' hpost
    obtain ⟨code, rfl, hr, hlooks⟩ := hpost
    exact yields_pure ⟨.atom (.pair code), .atom _, rfl, Cursor.looked_reaches.1 hr, hlooks,
      hhead hk (by simp [signs, Item.kind, Kind.ofChar])⟩
  · rename_i hk
    refine (splice_yields (c := c.looked) hk hl' (hf.mono fun h => h.looked.node hk)).mono ?_
    intro e c' hpost
    obtain ⟨n, hn, hr, hlooks⟩ := hpost
    rw [Cursor.looked_reaches] at hr
    cases e with
    | atom a =>
      exact ⟨.atom (.node n a hn), .atom _, rfl, hr, hlooks,
        hhead hk (by simp [signs, Item.kind, Kind.ofChar])⟩
    | quantifier q =>
      obtain rfl : n = .quantifier q := by
        cases n <;> simp_all [Node.element?]
      exact ⟨.quantifier q, .quantifier q, rfl, hr, hlooks,
        hhead hk (by simp [signs, Item.kind, Kind.ofChar])⟩
  · rename_i hopen hslash hcut
    have heof : c.kindAt 0 ≠ .eof := by
      intro hk
      rw [hk] at hend
      exact absurd hend (by decide)
    obtain ⟨i, rest, hc⟩ := Cursor.exists_item heof
    have hk : c.kindAt 0 = i.kind := Cursor.kindAt_zero hc
    have hm : c.MayFail fails := by
      refine hf.mayFail fun h => ?_
      obtain ⟨_, e, rest, h⟩ := h
      rcases e with (_ | _ | _ | _) | ⟨_ | _ | _ | _, _⟩ | _ <;> exact ⟨_, _, rest, h⟩
    refine isAtSigil_bind (by omega) (fun hb => ?_) (fun hb => ?_)
    · exact yields_fail (hf _ trivial fun h => h.1 hb)
    rw [if_neg (by simp)]
    refine (literal_yields (c := c.looked.looked) hc (fun h => hcut (hk.trans h)) ?_ ?_).bind ?_
    · rw [Cursor.looks_looked]
      omega
    · rw [Cursor.mayFail_looked, Cursor.mayFail_looked]
      exact hm
    intro _ c' hpost
    obtain ⟨⟨a, rfl, rfl⟩, hr, hlooks⟩ := hpost
    rw [Cursor.looked_reaches, Cursor.looked_reaches] at hr
    have hbare : a ∉ reserved := by
      refine not_mem_reserved (by rw [← hend, hk]; rfl) (fun h => hopen (hk.trans h))
        (fun h => hslash (hk.trans h)) fun ha => hb (.inl ⟨a, ha, rest, hc⟩)
    exact yields_pure ⟨.atom (.literal a hbare), .atom _, rfl, hr, hlooks, hb⟩

/-! ## Sigils behind an element -/

theorem repeated_yields {e : Written.Element} (he : e.IsBare) (hp : c.Placed)
    (hl : 12 ≤ c.looks)
    (hf : FailsUnless (∃ used e' rest, e.Repeats used e' ∧ c.CanRead used rest
      ∧ ¬ BeginsSigil rest) fails) :
    Yields (repeated e.tree) c (fun r c' => ∃ used e', e.Repeats used e' ∧ r = e'.tree
      ∧ c.Reaches used c' ∧ ¬ BeginsSigil c'.items ∧ 10 ≤ c'.looks) fails := by
  refine isAtSigil_bind (by omega) (fun hb => ?_) (fun hb => ?_)
  · cases he with
    | quantifier q =>
      refine yields_fail (hf _ trivial ?_)
      intro h
      obtain ⟨used, e', rest, hrep, h, hrest⟩ := h
      cases hrep
      rw [← List.nil_append rest, ← h.items] at hrest
      exact hrest hb
    | atom a =>
      have hf₁ : FailsUnless (∃ (s : Written.Sigil) (rest : _), c.looked.CanRead s.items rest
          ∧ ¬ BeginsSigil rest) fails := by
        refine hf.mono fun h => ?_
        obtain ⟨used, e', rest, hrep, h, hrest⟩ := h
        cases hrep with
        | same =>
          rw [← List.nil_append rest, ← h.items] at hrest
          exact absurd hb hrest
        | sigil _ s => exact ⟨s, rest, Cursor.canRead_looked.2 h, hrest⟩
      refine (sigil_yields (c := c.looked) hb hp ?_ (hf₁.mono fun h => ?_)).bind ?_
      · rw [Cursor.looks_looked]
        omega
      · obtain ⟨s, rest, h, -⟩ := h
        exact ⟨s, rest, h⟩
      intro _ c₁ hpost
      obtain ⟨s, rfl, hr, hl₁⟩ := hpost
      -- What stands behind the sigil stands behind that of the derivation.
      have hend : FailsUnless (¬ BeginsSigil c₁.items) fails := by
        refine hf₁.mono fun h => ?_
        obtain ⟨t, rest, h, hrest⟩ := h
        obtain ⟨-, rfl⟩ := Sigil.items_append_inj (hr.items.symm.trans h.items)
        exact hrest
      refine isAt_bind (by omega) ?_
      split
      · rename_i hk
        refine yields_fail (hend _ trivial fun h => h (.inl ⟨'?', by decide, ?_⟩))
        exact Cursor.exists_char_of_kindAt (eq_of_beq hk) rfl
      refine isAtSigil_bind (by rw [Cursor.looks_looked]; omega) (fun hb₁ => ?_)
        (fun hb₁ => ?_)
      · exact yields_fail (hend _ trivial fun h => h hb₁)
      · have hq := quantifier_eq a.tree s
        rw [if_neg (by simp)]
        rw [show (Written.Element.atom a).tree = .atom a.tree from rfl, sound_eq hq, pure_bind]
        refine yields_pure ⟨s.items, .repeated a s, .sigil a s, rfl, ?_, hb₁, ?_⟩
        · rw [Cursor.reaches_looked, Cursor.reaches_looked]
          exact Cursor.looked_reaches.1 hr
        · rw [Cursor.looks_looked, Cursor.looks_looked]
          omega
  · refine yields_pure ⟨[], e, .same e, rfl, ?_, hb, ?_⟩
    · exact Cursor.reaches_looked.2 (Cursor.Reaches.refl c)
    · rw [Cursor.looks_looked]
      omega

end Parser

end RegexLiteral
