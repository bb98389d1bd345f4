import RegexLiteral.Proofs.Failing.Stop

/-!
# Errors in escapes and classes

An escape and a class go wrong only where the source ends or at a line terminator: every other
character can stand behind a backslash, and between brackets. So all that has been read can be
completed (`escape_fails`, `characterClass_fails`).
-/

namespace RegexLiteral

namespace Parser

open Written

variable {c : Cursor} {viable doomed : List Item → Prop} {fails : Failure → Prop}

/-! ## Escapes -/

theorem escapeCode_fails (hp : c.Plain) (hc : c.kindAt 0 = .backslash) (hl : 2 ≤ c.looks) :
    Fails escapeCode c (c.BreaksOff Waiting) := by
  obtain ⟨rest, hrest⟩ := Cursor.exists_char_of_kindAt hc rfl
  have hm : c.MayFail (c.BreaksOff Waiting) :=
    hp.mayFail fun hk => absurd (hc.symm.trans hk) (by decide)
  refine expect_bind (by omega) hc (get_bind ?_)
  refine (consume_yields (c := c.looked) hrest (by decide) ?_ (Cursor.mayFail_looked.2 hm)).bind ?_
  · rw [Cursor.looks_looked]
    omega
  intro _ c₁ hpost
  obtain ⟨-, -, hr, hl₁⟩ := hpost
  rw [Cursor.looked_reaches] at hr
  have hp₁ := hp.reaches hr
  have stops {cause : Cause} {related : List Related}
      (hk : c₁.kindAt 0 = .eof ∨ c₁.kindAt 0 = .garbage) :
      c.BreaksOff Waiting (.error ⟨cause, c₁.span, related⟩) := by
    have h : c₁.BreaksOff (· = []) (.error ⟨cause, c₁.span, related⟩) := Cursor.stops_here rfl hk
    refine h.after hp.placed hr ?_
    rintro _ rfl
    exact .slash
  refine isAt_bind (by omega) ?_
  rw [if_neg (by simpa using hp₁.kindAt_ne)]
  refine isAt_bind (by rw [Cursor.looks_looked]; omega) ?_
  split
  · rename_i hk
    exact yields_fail (stops (.inr (eq_of_beq hk)))
  rename_i hterm
  refine get_bind ?_
  cases hc₁ : c₁.items with
  | nil =>
    have hchars : c₁.looked.looked.chars = [] := by
      rw [Cursor.chars, Cursor.charsAt_eq, Cursor.items_looked, Cursor.items_looked, hc₁]
      rfl
    rw [hchars]
    exact yields_failBecause (stops (.inl (Cursor.kindAt_nil hc₁)))
  | cons i rest =>
    have hk := Cursor.kindAt_zero hc₁
    have hchars : c₁.looked.looked.chars = i.chars := by
      rw [Cursor.chars, Cursor.charsAt_eq, Cursor.items_looked, Cursor.items_looked, hc₁]
      rfl
    obtain ⟨a, rfl⟩ := Item.exists_char (hk ▸ hp₁.kindAt_ne) fun hi =>
      hterm (beq_iff_eq.2 (hk.trans hi))
    rw [hchars]
    refine (consume_yields (c := c₁.looked.looked) hc₁ (hk ▸ hp₁.kindAt_ne) ?_ ?_).bind
      fun _ _ _ => yields_pure trivial
    · rw [Cursor.looks_looked, Cursor.looks_looked]
      omega
    · exact hp₁.looked.looked.mayFail fun hg => absurd (beq_iff_eq.2 hg) hterm

theorem escape_fails (hp : c.Plain) (hc : c.kindAt 0 = .backslash) (hl : 2 ≤ c.looks) :
    Fails escape c (c.BreaksOff Waiting) := by
  refine (escapeCode_yields hc hl (failsUnless_isProper _)).bind_fails
    (escapeCode_fails hp hc hl) fun code c' _ => ?_
  split
  · rename_i hw
    rw [wordSet_eq hw, pure_bind]
    exact yields_pure trivial
  split
  · rename_i hg
    rw [eq_of_beq hg, gap_eq, pure_bind]
    exact yields_pure trivial
  · rw [escapedCharacter_eq, pure_bind]
    exact yields_pure trivial

theorem classEscape_fails (hp : c.Plain) (hc : c.kindAt 0 = .backslash) (hl : 2 ≤ c.looks) :
    Fails classEscape c (c.BreaksOff Waiting) := by
  refine (escapeCode_yields hc hl (failsUnless_isProper _)).bind_fails
    (escapeCode_fails hp hc hl) fun code c' _ => ?_
  split
  · rename_i hw
    rw [wordSet_eq hw, pure_bind]
    exact yields_pure trivial
  · rw [escapedCharacter_eq, pure_bind]
    exact yields_pure trivial

/-! ## Elements of classes -/

theorem classAtom_fails (hp : c.Plain) (hl : 3 ≤ c.looks) (heof : c.kindAt 0 ≠ .eof) :
    Fails classAtom c (c.BreaksOff Waiting) := by
  have hl' : 2 ≤ c.looked.looks := by
    rw [Cursor.looks_looked]
    omega
  refine look_bind (by omega) ?_
  split
  · rename_i hk
    exact classEscape_fails hp.looked hk hl'
  · rename_i hk
    exact absurd hk hp.kindAt_ne
  · obtain ⟨i, rest, hc⟩ := Cursor.exists_item heof
    refine Yields.map ((literal_yields (c := c.looked) hc ?_ (by omega) ?_).mono
      fun _ _ _ => trivial)
    · exact (Cursor.kindAt_zero hc).symm ▸ hp.kindAt_ne
    · exact hp.looked.mayFail fun hk => Cursor.stops_here .none (.inr hk)

theorem rangeEnd_fails {i : Item} {rest : List Item} (hp : c.Plain) (hc : c.items = i :: rest)
    (hi : i ≠ .char ']') (ha : ∀ (m : ClassAtom) (x : _), i :: rest = m.items ++ x →
      m.character?.isSome) (hl : 3 ≤ c.looks) :
    Fails rangeEnd c (c.BreaksOff Waiting) := by
  have hk : c.kindAt 0 = i.kind := Cursor.kindAt_zero hc
  have hclose : c.kindAt 0 ≠ .bracketClose := fun h =>
    hi (Item.eq_char_of_kind (hk.symm.trans h) rfl)
  have heof : c.kindAt 0 ≠ .eof := fun h => i.kind_ne_eof (hk.symm.trans h)
  refine get_bind ((classAtom_yields hl hclose heof (failsUnless_isProper _)).bind_fails
    (classAtom_fails hp hl heof) ?_)
  intro _ c' hpost
  obtain ⟨a, rfl, hr, -⟩ := hpost
  have hsome := ha a c'.items (hc.symm.trans hr.items)
  unfold ClassAtom.character? at hsome
  split
  · exact yields_pure trivial
  · rename_i hne
    split at hsome
    · rename_i r hr'
      exact absurd hr' (hne r)
    · cases hsome

theorem rangeFrom_fails (hp : c.Plain) (min : Character) (hl : 6 ≤ c.looks) :
    Fails (rangeFrom min) c (c.BreaksOff ClassBegun) := by
  refine (isAtRange_yields (by omega)).bind ?_
  intro b c₁ hpost
  obtain ⟨hr₁, hl₁, htrue, -⟩ := hpost
  split
  · rename_i hb
    obtain ⟨i, rest, hc, hi, hend⟩ := htrue hb
    rw [hr₁.items] at hc
    let minus : ClassAtom := .char '-' (by decide)
    refine (token_plain_yields .punctuator (hp.reaches hr₁) hc (by decide) (by omega)).bind ?_
    intro _ c₂ hpost
    obtain ⟨rfl, hr₂, hl₂⟩ := hpost
    have hr := hr₁.trans hr₂
    have hc₂ : c₂.items = i :: rest := hr₂.items_eq hc
    have hl₂' : 3 ≤ c₂.looks := by omega
    refine ((rangeEnd_fails (hp.reaches hr) hc₂ hi hend hl₂').imp fun e he => ?_).bind ?_
    · exact he.after hp.placed hr fun used h => h.classBegun.append [minus]
    · intro max c₃ _
      rw [sound_eq (show CharacterClassRange.ofParts min (.ofChar .punctuator '-') max = .ok _
        from rfl)]
      exact yields_pure trivial
  · exact yields_pure trivial

theorem classElement_fails (hp : c.Plain) (hl : 3 ≤ c.looks) (hclose : c.kindAt 0 ≠ .bracketClose)
    (heof : c.kindAt 0 ≠ .eof) : Fails classElement c (c.BreaksOff ClassBegun) := by
  refine (classAtom_yields hl hclose heof (failsUnless_isProper _)).bind_fails
    ((classAtom_fails hp hl heof).imp fun e he => he.mono (fun _ h => h.classBegun) fun _ h => h) ?_
  intro _ c₁ hpost
  obtain ⟨a, rfl, hr, hl₁⟩ := hpost
  split
  · rename_i min hmin
    refine (rangeFrom_fails (hp.reaches hr) min (by omega)).imp fun e he => ?_
    refine he.after hp.placed hr fun used h => ?_
    have := h.append [a]
    rwa [List.flatMap_singleton] at this
  · exact yields_pure trivial

/-! ## Whole classes -/

theorem classElements_fails (hp : c.Plain) (hl : 4 ≤ c.looks) :
    Fails classElements c (c.BreaksOff ClassBegun) := by
  refine collect_fails (I := fun c => c.Plain ∧ 4 ≤ c.looks)
    (F := fun c => c.BreaksOff ClassBegun) ?_ ⟨hp, hl⟩
  intro c hpost
  obtain ⟨hp, hl⟩ := hpost
  have hl' : 3 ≤ c.looked.looks := by
    rw [Cursor.looks_looked]
    omega
  refine look_bind (by omega) ?_
  split
  · exact yields_pure (by simp)
  · rename_i hk
    exact failUnclosed_yields (c := c.looked) hp.looked.toRegular fun _ =>
      Cursor.stops_here Waiting.none.classBegun (.inl hk)
  · rename_i hclose heof
    refine Yields.map (Yields.mono ((classElement_yields (c := c.looked) hl' hclose heof
      (failsUnless_isProper _)).and (classElement_fails hp.looked hl' hclose heof) |>.imp
        fun _ he => he.2) ?_)
    intro _ c' hpost _
    obtain ⟨as, hne, hr, hlooks, -⟩ := hpost
    rw [Cursor.looked_reaches] at hr
    refine ⟨hr.length_lt fun hnil => ?_, ⟨hp.reaches hr, hlooks⟩, fun e he => ?_⟩
    · obtain ⟨a, as, rfl⟩ := List.exists_cons_of_ne_nil hne
      cases a <;> simp [ClassAtom.items] at hnil
    · exact he.after hp.placed hr fun used h => h.append as

theorem classBody_fails (hp : c.Plain) (hl : 5 ≤ c.looks) :
    Fails classBody c (c.BreaksOff ClassBegun) := by
  have hm : c.MayFail (c.BreaksOff ClassBegun) := hp.mayFail fun hk =>
    Cursor.stops_here Waiting.none.classBegun (.inr hk)
  refine (negation_yields (by omega) hm).bind ?_
  rintro _ c₁ (⟨rfl, hr, hl₁⟩ | ⟨rfl, hk, rfl⟩)
  · let caret : ClassAtom := .char '^' (by decide)
    refine ((classElements_fails (hp.reaches hr) (by omega)).imp fun e he => ?_).bind
      fun _ _ _ => yields_pure trivial
    exact he.after hp.placed hr fun used h => h.append [caret]
  · have hl₁ : 4 ≤ c.looked.looks := by
      rw [Cursor.looks_looked]
      omega
    exact (classElements_fails hp.looked hl₁).bind fun _ _ _ => yields_pure trivial

theorem characterClass_fails (hp : c.Plain) (hc : c.kindAt 0 = .bracketOpen) (hl : 2 ≤ c.looks) :
    Fails characterClass c (c.BreaksOff Viable) := by
  refine expect_bind (by omega) hc (modify_bind ?_)
  obtain ⟨rest, hrest⟩ := Cursor.exists_char_of_kindAt hc rfl
  let c₁ : Cursor :=
    { c.looked with delimiters := ⟨.bracketOpen, c.looked.span⟩ :: c.looked.delimiters }
  have hp₁ : c₁.Plain := hp.looked.delimit (.inr rfl)
  have hl₁ : 0 < c₁.looks := by
    rw [show c₁.looks = c.looks - 1 from rfl]
    omega
  refine (token_plain_yields .punctuator hp₁ hrest (by decide) hl₁).bind ?_
  intro _ c₂ hpost
  obtain ⟨rfl, hr₂, hl₂⟩ := hpost
  have hp₂ := hp₁.reaches hr₂
  have hl₂' : 5 ≤ c₂.looks := by omega
  refine (classBody_yields hp₂.toRegular hl₂' (failsUnless_isProper _)).bind_fails
    ((classBody_fails hp₂ hl₂').imp fun e he => ?_) ?_
  · exact Cursor.BreaksOff.after (c := c₁) (u := [_]) he hp₁.placed hr₂ fun used h => h.viable
  intro _ c₃ hpost
  obtain ⟨body, rfl, hr₃, hl₃, hk₃, -⟩ := hpost
  obtain ⟨rest₃, hrest₃⟩ := Cursor.exists_char_of_kindAt hk₃ rfl
  refine (token_plain_yields .punctuator (hp₂.reaches hr₃) hrest₃ (by decide) (by omega)).bind ?_
  intro _ c₄ hpost
  obtain ⟨rfl, -, -⟩ := hpost
  refine modify_bind ?_
  rw [sound_eq (charClass_eq body)]
  exact yields_pure trivial

end Parser

end RegexLiteral
