import RegexLiteral.Proofs.Step
import RegexLiteral.Proofs.Written

/-!
# Reading characters, escapes and embedded nodes

A single character is read as a literal, a backslash takes the character behind it whatever that is,
and a cut takes its node if the family is right. The tokens that an escape builds anew always make
up a sound node.
-/

namespace RegexLiteral

theorem Character.ofToken_ofChar (a : Char) :
    Character.ofToken (.ofChar .character a) = .ok (.ofChar a) := by
  have h : (Token.ofChar .character a).category = .character := rfl
  simp only [Character.ofToken, Character.check, require, h, Token.char?_ofChar, if_true]
  rfl

theorem EscapeSequence.ofParts_ofCode (code : Char) :
    EscapeSequence.ofParts (EscapeSequence.decode code)
      ((Token.ofChar .punctuator '\\').startingSpan .escape)
      ((Token.ofChar .keyword code).endingSpan .escape) = .ok (.ofCode code) := by
  have hcode : ((Token.ofChar .keyword code).endingSpan .escape).char? = some code :=
    Token.char?_ofChar .keyword code
  simp only [EscapeSequence.ofParts, EscapeSequence.check, hcode]
  simp only [Token.checkText, require, if_true]
  rfl

namespace Parser

open Written

variable {α : Type} {c : Cursor} {fails : Failure → Prop} {i : Item} {rest : List Item}

theorem literal_yields (hc : c.items = i :: rest) (hi : i.kind ≠ .interpolation)
    (hl : 0 < c.looks) (hm : c.MayFail fails) :
    Yields literal c (fun r c' => (∃ a, i = .char a ∧ r = .ofChar a) ∧ c.Reaches [i] c'
      ∧ 12 ≤ c'.looks) fails := by
  refine (token_yields .character hc hi hl hm).bind ?_
  intro _ c' hpost
  obtain ⟨⟨a, rfl, rfl⟩, hr, hl'⟩ := hpost
  rw [sound_eq (Character.ofToken_ofChar a)]
  exact yields_pure ⟨⟨a, rfl, rfl⟩, hr, hl'⟩

/-! ## Escapes -/

/-- Every character can stand behind a backslash. -/
theorem escapeCode_yields (hc : c.kindAt 0 = .backslash) (hl : 2 ≤ c.looks)
    (hf : FailsUnless (∃ code rest, c.CanRead [.char '\\', .char code] rest) fails) :
    Yields escapeCode c (fun code c' => c.Reaches [.char '\\', .char code] c'
      ∧ 12 ≤ c'.looks) fails := by
  obtain ⟨rest, hrest⟩ := Cursor.exists_char_of_kindAt hc rfl
  have hm : c.MayFail fails := by
    refine hf.mayFail fun h => ?_
    obtain ⟨_, rest, h⟩ := h
    exact ⟨_, _, rest, h⟩
  refine expect_bind (by omega) hc (get_bind ?_)
  refine (consume_yields (c := c.looked) hrest (by decide) ?_ (Cursor.mayFail_looked.2 hm)).bind ?_
  · rw [Cursor.looks_looked]
    omega
  intro _ c₁ hpost
  obtain ⟨-, -, hr, hl₁⟩ := hpost
  rw [Cursor.looked_reaches] at hr
  -- What is needed of the first cursor is needed of the second for the code alone.
  have hf₁ : FailsUnless (∃ code rest, c₁.CanRead [.char code] rest) fails := by
    refine hf.mono fun h => ?_
    obtain ⟨code, rest, h⟩ := h
    exact ⟨code, rest, h.step (u := [_]) hr⟩
  have fails_of_kind {k : Kind} {e : Failure} (he : e.IsProper) (hk : c₁.kindAt 0 = k)
      (hne : ∀ a, Kind.ofChar a = k → k = .garbage) : fails e := by
    refine hf₁ e he ?_
    intro h
    obtain ⟨code, rest, h⟩ := h
    have hcode := (Cursor.kindAt_zero h.items).symm.trans hk
    exact h.clean _ List.mem_cons_self (hcode.trans (hne code hcode))
  refine isAt_bind (by omega) ?_
  split
  · rename_i hk
    exact yields_fail (fails_of_kind trivial (eq_of_beq hk)
      fun a ha => absurd ha (Kind.ofChar_ne_interpolation a))
  rename_i hne
  refine isAt_bind (by rw [Cursor.looks_looked]; omega) ?_
  split
  · rename_i hk
    exact yields_fail (fails_of_kind trivial (eq_of_beq hk) fun _ _ => rfl)
  rename_i hterm
  refine get_bind ?_
  cases hc₁ : c₁.items with
  | nil =>
    have hchars : c₁.looked.looked.chars = [] := by
      rw [Cursor.chars, Cursor.charsAt_eq, Cursor.items_looked, Cursor.items_looked, hc₁]
      rfl
    rw [hchars]
    exact yields_failBecause (fails_of_kind trivial (Cursor.kindAt_nil hc₁)
      fun a ha => absurd ha (Kind.ofChar_ne_eof a))
  | cons i rest =>
    have hi : i.kind ≠ .interpolation := fun hi =>
      hne (beq_iff_eq.2 ((Cursor.kindAt_zero hc₁).trans hi))
    have hchars : c₁.looked.looked.chars = i.chars := by
      rw [Cursor.chars, Cursor.charsAt_eq, Cursor.items_looked, Cursor.items_looked, hc₁]
      rfl
    obtain ⟨a, rfl⟩ := Item.exists_char hi fun hi =>
      hterm (beq_iff_eq.2 ((Cursor.kindAt_zero hc₁).trans hi))
    rw [hchars]
    refine (consume_yields (c := c₁.looked.looked) hc₁ hi ?_ ?_).bind ?_
    · rw [Cursor.looks_looked, Cursor.looks_looked]
      omega
    · rw [Cursor.mayFail_looked, Cursor.mayFail_looked]
      refine hf₁.mayFail fun h => ?_
      obtain ⟨_, rest, h⟩ := h
      exact ⟨_, _, rest, h⟩
    intro _ c₂ hpost
    obtain ⟨-, -, hr₂, hl₂⟩ := hpost
    rw [Cursor.looked_reaches, Cursor.looked_reaches] at hr₂
    exact yields_pure ⟨hr.trans hr₂, hl₂⟩

theorem escapeTokens_eq (code : Char) :
    escapeTokens code = pure (.ofChar .punctuator '\\', .ofChar .keyword code) := by
  have h : newToken .punctuator "\\" = pure (.ofChar .punctuator '\\') :=
    newToken_singleton .punctuator '\\'
  rw [escapeTokens, h, pure_bind, newToken_singleton, pure_bind]

theorem escapedCharacter_eq (code : Char) : escapedCharacter code = pure (.ofCode code) := by
  rw [escapedCharacter, escapeTokens_eq, pure_bind]
  dsimp only
  rw [sound_eq (EscapeSequence.ofParts_ofCode code), pure_bind, Character.ofCode]

theorem wordSet_eq {code : Char} (h : isWordCode code) : wordSet code = pure (.ofCode code) := by
  rw [wordSet, escapeTokens_eq, pure_bind]
  refine sound_eq ?_
  simp only [isWordCode, Bool.or_eq_true, beq_iff_eq] at h
  rcases h with rfl | rfl <;> rfl

theorem gap_eq : gap 'g' = pure (.ofCode 'g') := by
  rw [gap, escapeTokens_eq, pure_bind]
  exact sound_eq rfl

theorem escape_yields (hc : c.kindAt 0 = .backslash) (hl : 2 ≤ c.looks)
    (hf : FailsUnless (∃ code rest, c.CanRead [.char '\\', .char code] rest) fails) :
    Yields escape c (fun a c' => ∃ code, a = (Atom.pair code).tree
      ∧ c.Reaches (Atom.pair code).items c' ∧ 12 ≤ c'.looks) fails := by
  refine (escapeCode_yields hc hl hf).bind fun code c' h => ?_
  split
  · rename_i hw
    rw [wordSet_eq hw, pure_bind]
    exact yields_pure ⟨code, by rw [Atom.tree, if_pos hw], h⟩
  rename_i hw
  split
  · rename_i hg
    rw [eq_of_beq hg, gap_eq, pure_bind]
    exact yields_pure ⟨'g', rfl, eq_of_beq hg ▸ h⟩
  · rename_i hg
    rw [escapedCharacter_eq, pure_bind]
    exact yields_pure ⟨code, by rw [Atom.tree, if_neg hw, if_neg (by simpa using hg)], h⟩

theorem classEscape_yields (hc : c.kindAt 0 = .backslash) (hl : 2 ≤ c.looks)
    (hf : FailsUnless (∃ code rest, c.CanRead [.char '\\', .char code] rest) fails) :
    Yields classEscape c (fun e c' => ∃ code, e = (ClassAtom.pair code).element
      ∧ c.Reaches (ClassAtom.pair code).items c' ∧ 12 ≤ c'.looks) fails := by
  refine (escapeCode_yields hc hl hf).bind fun code c' h => ?_
  split
  · rename_i hw
    rw [wordSet_eq hw, pure_bind]
    exact yields_pure ⟨code, by rw [ClassAtom.element, if_pos hw], h⟩
  · rename_i hw
    rw [escapedCharacter_eq, pure_bind]
    exact yields_pure ⟨code, by rw [ClassAtom.element, if_neg hw], h⟩

/-! ## Embedded nodes -/

/-- The node at a cut is taken if it belongs to the family. -/
theorem splice_yields {family? : Node → Option α} {cause : NodeType → Cause}
    (hc : c.kindAt 0 = .interpolation) (hl : 2 ≤ c.looks)
    (hf : FailsUnless (∃ n rest, (family? n).isSome ∧ c.CanRead [.node n] rest) fails) :
    Yields (splice family? cause) c (fun a c' => ∃ n, family? n = some a ∧ c.Reaches [.node n] c'
      ∧ 12 ≤ c'.looks) fails := by
  obtain ⟨i, rest, hi⟩ : ∃ i rest, c.items = i :: rest := by
    cases h : c.items with
    | nil => simp [Cursor.kindAt_nil h] at hc
    | cons i rest => exact ⟨i, rest, rfl⟩
  rw [Cursor.kindAt_zero hi] at hc
  have hm : c.MayFail fails := by
    refine hf.mayFail fun h => ?_
    obtain ⟨_, rest, _, h⟩ := h
    exact ⟨_, _, rest, h⟩
  have hn : i = .missing → fails (.error ⟨.noSubtree c.spliced, c.span, []⟩) := by
    rintro rfl
    refine hf _ trivial ?_
    intro h
    obtain ⟨n, rest, -, h⟩ := h
    cases hi.symm.trans h.items
  refine get_bind ((substitution_yields hi hc hl hm hn).bind ?_)
  intro n c' hpost
  obtain ⟨rfl, hr, hl'⟩ := hpost
  split
  · rename_i a ha
    exact yields_pure ⟨n, ha, hr, hl'⟩
  · rename_i ha
    refine yields_failAt (hf _ trivial ?_)
    intro h
    obtain ⟨n', rest, hn', h⟩ := h
    cases hi.symm.trans h.items
    simp [ha] at hn'

end Parser

end RegexLiteral
