import RegexLiteral.Proofs.Reading.Alternative

/-!
# Reading literals

Flag letters are read as long as none comes twice. A whole input is read if it has a derivation that
uses up every item and every node, and then the result is the tree of that derivation
(`production_yields`).
-/

namespace RegexLiteral

namespace Parser

open Written

variable {c c' : Cursor} {fails : Failure → Prop} {x : List Item}

/-! ## Flags -/

/-- Different letters that are not in `seen` stand up to the end. -/
def LettersAhead (seen : FlagSet) (c : Cursor) : Prop :=
  ∃ fs : List Flag, fs.Nodup ∧ (∀ f ∈ fs, seen.has f = false)
    ∧ c.CanRead (fs.map fun f => .char f.letter) []

/-- A letter that comes once is not among those behind it. -/
theorem has_insert_of_nodup {seen : FlagSet} {f : Flag} {fs : List Flag} (hnd : (f :: fs).Nodup)
    (hseen : ∀ g ∈ f :: fs, seen.has g = false) : ∀ g ∈ fs, (seen.insert f).has g = false := by
  intro g hg
  rw [FlagSet.has_insert, hseen g (List.mem_cons_of_mem _ hg), Bool.false_or, beq_eq_false_iff_ne]
  rintro rfl
  exact (List.nodup_cons.1 hnd).1 hg

theorem LettersAhead.cons {seen : FlagSet} (h : LettersAhead seen c) (hne : c.kindAt 0 ≠ .eof) :
    ∃ (f : Flag) (fs : List Flag), seen.has f = false ∧ fs.Nodup
      ∧ (∀ g ∈ fs, (seen.insert f).has g = false)
      ∧ c.CanRead (.char f.letter :: fs.map fun f => .char f.letter) [] := by
  obtain ⟨_ | ⟨f, fs⟩, hnd, hseen, h⟩ := h
  · exact absurd (Cursor.kindAt_nil h.items) hne
  · exact ⟨f, fs, hseen f List.mem_cons_self, (List.nodup_cons.1 hnd).2,
      has_insert_of_nodup hnd hseen, h⟩

theorem flagTokens_yields : ∀ (n : Nat) (seen : FlagSet) {c : Cursor}, c.lexemes.length < n →
    4 ≤ c.looks → FailsUnless (LettersAhead seen c) fails →
    Yields (flagTokens n seen) c (fun ts c' => ∃ fs : List Flag, fs.Nodup
      ∧ (∀ f ∈ fs, seen.has f = false) ∧ ts = fs.map (fun f => Token.ofChar .keyword f.letter)
      ∧ c.Reaches (fs.map fun f => .char f.letter) c' ∧ c'.items = [] ∧ 3 ≤ c'.looks) fails
  | 0, seen, c, hn, hl, hf => by omega
  | n + 1, seen, c, hn, hl, hf => by
    have hl' : 3 ≤ c.looked.looks := by
      rw [Cursor.looks_looked]
      omega
    -- A letter stands first if anything does.
    have hkind {k : Kind} (hk : c.kindAt 0 = k) (hne : k ≠ .eof)
        (hletter : ∀ f : Flag, Kind.ofChar f.letter ≠ k) (e : Failure) (he : e.IsProper) :
        fails e := by
      refine hf e he fun h => ?_
      obtain ⟨f, fs, -, -, -, h⟩ := h.cons (by rw [hk]; exact hne)
      exact hletter f ((Cursor.kindAt_zero h.items).symm.trans hk)
    refine look_bind (by omega) ?_
    split
    · rename_i hk
      exact yields_pure ⟨[], List.nodup_nil, by simp, rfl,
        Cursor.reaches_looked.2 (Cursor.Reaches.refl c), Cursor.kindAt_eq_eof hk, hl'⟩
    · rename_i hk
      exact yields_fail (hkind hk (by decide) (fun f => Kind.ofChar_ne_interpolation _) _ trivial)
    · rename_i hk
      exact yields_fail (hkind hk (by decide) (by intro f; cases f <;> decide) _ trivial)
    · rename_i heof hcut hterm
      obtain ⟨i, rest, hc⟩ := Cursor.exists_item heof
      have hk : c.kindAt 0 = i.kind := Cursor.kindAt_zero hc
      rw [hk] at hcut hterm
      obtain ⟨a, rfl⟩ := Item.exists_char hcut hterm
      have hchars : c.looked.chars = [a] := by
        rw [Cursor.chars, Cursor.charsAt_eq, Cursor.items_looked, hc]
        rfl
      -- What the derivation has first is the character at the cursor.
      have hf' : FailsUnless (∃ (f : Flag) (fs : List Flag), f.letter = a ∧ seen.has f = false
          ∧ fs.Nodup ∧ (∀ g ∈ fs, (seen.insert f).has g = false)
          ∧ c.CanRead (.char f.letter :: fs.map fun f => .char f.letter) []) fails := by
        refine hf.mono fun h => ?_
        obtain ⟨f, fs, hseen, hnd, hfs, h⟩ := h.cons heof
        exact ⟨f, fs, Item.char.inj (List.cons.inj (h.items.symm.trans hc)).1, hseen, hnd, hfs, h⟩
      refine get_bind ?_
      rw [hchars]
      split
      · rename_i hnone
        refine yields_fail (hf' _ trivial ?_)
        intro hex
        obtain ⟨f, -, rfl, -⟩ := hex
        exact absurd ((Flag.ofLetter?_letter f).symm.trans hnone) (by simp)
      rename_i f hfa
      obtain rfl : f.letter = a := Flag.letter_of_ofLetter? hfa
      split
      · rename_i hseen
        refine yields_fail (hf' _ trivial ?_)
        intro hex
        obtain ⟨g, -, hg, hseen', -⟩ := hex
        rw [letter_injective hg] at hseen'
        exact Bool.false_ne_true (hseen'.symm.trans hseen)
      rename_i hseen
      have hm : c.looked.MayFail fails := by
        refine Cursor.mayFail_looked.2 (hf'.mayFail fun h => ?_)
        obtain ⟨_, _, _, _, _, _, h⟩ := h
        exact ⟨_, _, _, h⟩
      refine (token_char_yields (c := c.looked) .keyword hc (by omega) hm).bind ?_
      intro _ c₁ hpost
      obtain ⟨rfl, hr₁, hl₁⟩ := hpost
      rw [Cursor.looked_reaches] at hr₁
      have hlen := hr₁.length_lt (by simp)
      refine (flagTokens_yields n (seen.insert f) (by omega) (by omega)
        (hf'.mono ?_)).bind ?_
      · intro h
        obtain ⟨g, fs, hg, -, hnd, hfs, h⟩ := h
        obtain rfl := letter_injective hg
        exact ⟨fs, hnd, hfs, h.step (u := [_]) hr₁⟩
      intro _ c₂ h
      obtain ⟨fs, hnd, hfs, rfl, hr₂, h⟩ := h
      simp only [FlagSet.has_insert, Bool.or_eq_false_iff, beq_eq_false_iff_ne] at hfs
      refine yields_pure ⟨f :: fs, List.nodup_cons.2 ⟨fun hmem => (hfs f hmem).2 rfl, hnd⟩, ?_, rfl,
        hr₁.trans hr₂, h⟩
      intro g hg
      rcases List.mem_cons.1 hg with rfl | hg
      · simpa using hseen
      · exact (hfs g hg).1

/-- Different letters turn on their flags. -/
theorem addAll_letters : ∀ (fs : List Flag) (seen : FlagSet), fs.Nodup →
    (∀ f ∈ fs, seen.has f = false) →
    Flags.addAll seen (fs.map fun f => .ofChar .keyword f.letter) = .ok (fs.foldl .insert seen)
  | [], _, _, _ => rfl
  | f :: fs, seen, hnd, hseen => by
    simp only [List.map_cons, Flags.addAll, Token.char?_ofChar, Option.bind_some,
      Flag.ofLetter?_letter, hseen f List.mem_cons_self]
    exact addAll_letters fs (seen.insert f) (List.nodup_cons.1 hnd).2
      (has_insert_of_nodup hnd hseen)

theorem flags_eq {fs : List Flag} (h : fs.Nodup) :
    Flags.ofTokens (fs.map fun f => .ofChar .keyword f.letter) = .ok (Flags.letters fs h).tree := by
  rw [Flags.ofTokens, addAll_letters fs .none h (by simp)]
  rfl

theorem flags_yields (hl : 6 ≤ c.looks)
    (hf : FailsUnless (∃ f : Written.Flags, c.CanRead f.items []) fails) :
    Yields flags c (fun r c' => ∃ f : Written.Flags, r = f.tree ∧ c.Reaches f.items c'
      ∧ c'.items = [] ∧ 1 ≤ c'.looks) fails := by
  have hl' : 5 ≤ c.looked.looks := by
    rw [Cursor.looks_looked]
    omega
  refine isAt_bind (by omega) ?_
  split
  · rename_i hk
    have hk := eq_of_beq hk
    have hf : FailsUnless (∃ f : RegexLiteral.Flags, c.CanRead [.node (.flags f)] []) fails := by
      refine hf.mono fun h => ?_
      obtain ⟨f, h⟩ := h
      cases f with
      | letters fs hfs =>
        cases fs with
        | nil => cases (Cursor.kindAt_nil h.items).symm.trans hk
        | cons f fs =>
          exact absurd ((Cursor.kindAt_zero h.items).symm.trans hk)
            (Kind.ofChar_ne_interpolation _)
      | node f => exact ⟨f, h⟩
    refine (splice_yields (c := c.looked) hk (by omega) (hf.mono fun h => ?_)).bind ?_
    · obtain ⟨f, h⟩ := h
      exact ⟨_, [], rfl, Cursor.canRead_looked.2 h⟩
    intro f c₁ hpost
    obtain ⟨n, hn, hr, hl₁⟩ := hpost
    rw [Cursor.looked_reaches] at hr
    obtain rfl : n = .flags f := by
      cases n <;> simp_all [Node.flags?]
    refine isAt_bind (by omega) ?_
    split
    · rename_i hk₁
      refine yields_pure ⟨.node f, rfl, Cursor.reaches_looked.2 hr,
        Cursor.kindAt_eq_eof (eq_of_beq hk₁), ?_⟩
      rw [Cursor.looks_looked]
      omega
    · rename_i hk₁
      refine yields_fail (hf _ trivial fun h => hk₁ (beq_iff_eq.2 (Cursor.kindAt_nil ?_)))
      obtain ⟨g, h⟩ := h
      have hi := hr.items.symm.trans h.items
      exact (List.cons.inj hi).2
  · rename_i hk
    refine get_bind ((flagTokens_yields _ .none (c := c.looked) (Nat.lt_succ_self _) (by omega)
      (hf.mono ?_)).bind ?_)
    · intro h
      obtain ⟨f, h⟩ := h
      cases f with
      | letters fs hfs => exact ⟨fs, hfs, by simp, Cursor.canRead_looked.2 h⟩
      | node f => exact absurd (beq_iff_eq.2 (Cursor.kindAt_zero h.items)) hk
    intro _ c₁ hpost
    obtain ⟨fs, hnd, -, rfl, hr, hnil, hl₁⟩ := hpost
    rw [sound_eq (flags_eq hnd)]
    exact yields_pure ⟨.letters fs hnd, rfl, Cursor.looked_reaches.1 hr, hnil, by omega⟩

/-! ## Slashes -/

theorem openingSlash_yields (hl : 2 ≤ c.looks)
    (hf : FailsUnless (∃ p : Written.Pattern, c.CanRead p.items []) fails) :
    Yields openingSlash c (fun t c' => t = .ofChar .punctuator '/' ∧ ∃ d, d.kind = .slash
      ∧ Cursor.Reaches { c with delimiters := d :: c.delimiters } [.char '/'] c'
      ∧ 12 ≤ c'.looks) fails := by
  have hslash : FailsUnless (c.kindAt 0 = .slash) fails := by
    refine hf.mono fun h => ?_
    obtain ⟨p, h⟩ := h
    exact Cursor.kindAt_zero h.items
  refine look_bind (by omega) ?_
  split
  · rename_i hk
    obtain ⟨x, hc⟩ := Cursor.exists_char_of_kindAt hk rfl
    let d : OpenDelimiter := ⟨.slash, c.span⟩
    let c₁ : Cursor := { c with delimiters := d :: c.delimiters }
    have hm : c₁.MayFail fails := by
      have hm : c.MayFail fails := by
        refine hf.mayFail fun h => ?_
        obtain ⟨_, h⟩ := h
        exact ⟨_, _, _, h⟩
      exact ⟨hm.terminator, hm.fuel⟩
    refine modify_bind ((token_char_yields (c := c₁.looked) .punctuator hc ?_
      (Cursor.mayFail_looked.2 hm)).mono ?_)
    · rw [Cursor.looks_looked]
      exact Nat.sub_pos_of_lt hl
    intro _ c' hpost
    obtain ⟨rfl, hr, hl'⟩ := hpost
    exact ⟨rfl, d, rfl, Cursor.looked_reaches.1 hr, hl'⟩
  · rename_i hk
    exact yields_fail (hslash _ trivial (by rw [hk]; decide))
  · rename_i hk
    exact yields_fail (hslash _ trivial (by rw [hk]; decide))
  · rename_i hk _ _
    exact yields_fail (hslash _ trivial hk)

theorem closingSlash_yields (hk : c.kindAt 0 ≠ .pipe) (hreg : c.Regular) (hl : 2 ≤ c.looks)
    (hf : FailsUnless (RestAhead c) fails) :
    Yields closingSlash c (fun t c' => t = .ofChar .punctuator '/' ∧ ∃ c₁,
      c.Reaches [.char '/'] c₁ ∧ c' = { c₁ with delimiters := c₁.delimiters.tail }
      ∧ 12 ≤ c'.looks
      ∧ FailsUnless (∃ f : Written.Flags, c'.CanRead f.items []) fails) fails := by
  have hf : FailsUnless (∃ f : Written.Flags, c.CanRead (.char '/' :: f.items) []) fails := by
    refine hf.mono ?_
    intro h
    obtain ⟨_ | ⟨a, as⟩, f, h⟩ := h
    · exact ⟨f, h⟩
    · exact absurd (Cursor.kindAt_zero h.items) hk
  refine isAt_bind (by omega) ?_
  split
  · rename_i hk
    obtain ⟨x, hc⟩ := Cursor.exists_char_of_kindAt (eq_of_beq hk) rfl
    have hm : c.MayFail fails := by
      refine hf.mayFail fun h => ?_
      obtain ⟨_, h⟩ := h
      exact ⟨_, _, _, h⟩
    refine (token_char_yields (c := c.looked) .punctuator hc ?_
      (Cursor.mayFail_looked.2 hm)).bind ?_
    · rw [Cursor.looks_looked]
      omega
    intro _ c₁ hpost
    obtain ⟨rfl, hr, hl₁⟩ := hpost
    rw [Cursor.looked_reaches] at hr
    refine modify_bind (yields_pure ⟨rfl, c₁, hr, rfl, hl₁, hf.mono fun h => ?_⟩)
    obtain ⟨f, h⟩ := h
    have h₁ := h.step (u := [_]) hr
    exact ⟨f, h₁.items, h₁.clean, h₁.fuel⟩
  · rename_i hk
    refine failUnclosed_yields (c := c.looked) ⟨hreg.placed, hreg.delimited⟩ fun _ => ?_
    refine hf _ trivial fun h => ?_
    obtain ⟨f, h⟩ := h
    exact hk (beq_iff_eq.2 (Cursor.kindAt_zero h.items))

/-! ## Patterns -/

theorem checkSeparators_pipes : ∀ ws : List Written.Alternative,
    Pattern.checkSeparators (ws.map fun _ => .ofChar .punctuator '|') = .ok ()
  | [] => rfl
  | _ :: ws => by
    rw [List.map_cons, Pattern.checkSeparators, checkSeparators_pipes ws]
    rfl

theorem pattern_eq (p : Written.Pattern) :
    Pattern.ofParts ((Token.ofChar .punctuator '/').opening '/' .pattern)
      (p.first.tree
        :: (p.rest.map fun w => (Token.ofChar .punctuator '|', w.tree)).map Prod.snd)
      ((p.rest.map fun w => (Token.ofChar .punctuator '|', w.tree)).map Prod.fst)
      (Token.ofChar .punctuator '/').balancing p.flags.tree = .ok p.tree := by
  have hfst : (p.rest.map fun w => (Token.ofChar .punctuator '|', w.tree)).map Prod.fst
      = p.rest.map fun _ => Token.ofChar .punctuator '|' := by
    rw [List.map_map]
    rfl
  have hzip (ws : List (Token × RegexLiteral.Alternative)) :
      (ws.map Prod.fst).zip (ws.map Prod.snd) = ws := by
    induction ws with
    | nil => rfl
    | cons w ws ih => rw [List.map_cons, List.map_cons, List.zip_cons_cons, ih]
  have hcheck : Pattern.check p.tree = .ok () := by
    unfold Pattern.check Pattern.separatorTokens Written.Pattern.tree
    rw [hfst, checkSeparators_pipes]
    rfl
  simp only [Pattern.ofParts, require, List.length_map, if_true, hzip]
  change (do Pattern.check p.tree; pure p.tree) = _
  rw [hcheck]
  rfl

theorem pattern_yields (hreg : c.Regular) (hl : 2 ≤ c.looks)
    (hf : FailsUnless (∃ p : Written.Pattern, c.CanRead p.items []) fails) :
    Yields pattern c (fun r c' => ∃ p : Written.Pattern, r = p.tree ∧ c.Reaches p.items c'
      ∧ c'.items = [] ∧ 1 ≤ c'.looks) fails := by
  refine (openingSlash_yields hl hf).bind ?_
  intro _ c₁ hpost
  obtain ⟨rfl, d, hd, hr₁, hl₁⟩ := hpost
  let c₀ : Cursor := { c with delimiters := d :: c.delimiters }
  have hf₀ : FailsUnless (∃ p : Written.Pattern, c₀.CanRead p.items []) fails := by
    refine hf.mono fun h => ?_
    obtain ⟨p, h⟩ := h
    exact ⟨p, h.items, h.clean, h.fuel⟩
  have hreg₀ : c₀.Regular := ⟨hreg.placed, fun e he => by
    rcases List.mem_cons.1 he with rfl | he
    · exact .inl hd
    · exact hreg.delimited e he⟩
  have hf₁ : FailsUnless (∃ p : Written.Pattern, c₁.CanRead (p.first.items
      ++ (p.rest.flatMap (fun a => .char '|' :: a.items) ++ .char '/' :: p.flags.items)) [])
      fails := by
    refine hf₀.mono fun h => ?_
    obtain ⟨p, h⟩ := h
    refine ⟨p, Cursor.CanRead.step (u := [_]) ?_ hr₁⟩
    simpa [Written.Pattern.items] using h
  refine (alternative_yields (hreg₀.reaches hr₁) (by omega) (hf₁.mono ?_)).bind ?_
  · intro h
    obtain ⟨p, h⟩ := h
    refine ⟨p.first.elements, _, p.first.fits, h.left, ?_⟩
    rw [List.append_nil]
    exact endsAlternative_rest p.rest p.flags.items
  intro _ c₂ hpost
  obtain ⟨first, rfl, hr₂, hend, hl₂⟩ := hpost
  have hreg₂ := (hreg₀.reaches hr₁).reaches hr₂
  have hf₂ : FailsUnless (RestAhead c₂) fails := by
    refine hf₁.mono fun h => ?_
    obtain ⟨p, h⟩ := h
    have hi := h.items.symm.trans hr₂.items
    rw [List.append_nil] at hi
    obtain ⟨rfl, -⟩ :=
      Alternative.items_append_inj (endsAlternative_rest p.rest p.flags.items) hend hi
    exact ⟨p.rest, p.flags, h.step hr₂⟩
  refine (alternatives_yields hreg₂ hl₂ hend hf₂).bind ?_
  intro _ c₃ hpost
  obtain ⟨rest, rfl, hr₃, hl₃, hk₃, -, hf₃⟩ := hpost
  refine (closingSlash_yields hk₃ (hreg₂.reaches hr₃) (by omega) hf₃).bind ?_
  intro _ c₅ hpost
  obtain ⟨rfl, c₄, hr₄, hc₅, hl₅, hf₅⟩ := hpost
  have hr₅ := (((hr₁.trans hr₂).trans hr₃).trans hr₄).between
  rw [← hc₅] at hr₅
  refine (flags_yields (by omega) hf₅).bind ?_
  intro _ c₆ hpost
  obtain ⟨f, rfl, hr₆, hnil, hl₆⟩ := hpost
  rw [sound_eq (pattern_eq ⟨first, rest, f⟩)]
  refine yields_pure ⟨⟨first, rest, f⟩, rfl, ?_, hnil, hl₆⟩
  have hr := hr₅.trans hr₆
  simpa [Written.Pattern.items] using hr

/-! ## Whole inputs -/

theorem finish_yields (hc : c.items = []) (hl : 1 ≤ c.looks)
    (hf : FailsUnless (c.substitutions = []) fails) :
    Yields finish c (fun _ c' => c'.substitutions = [] ∧ c.Reaches [] c') fails := by
  refine expect_bind (by omega) (Cursor.kindAt_nil hc) (get_bind ?_)
  rw [Cursor.substitutions_looked]
  split
  · rename_i hs
    exact yields_pure ⟨hs, Cursor.reaches_looked.2 (Cursor.Reaches.refl c)⟩
  · rename_i n ns hs
    exact yields_failAt (hf _ trivial (by rw [hs]; simp))

/-- What has to stand at the cursor for the whole input to be read. -/
def WholeAhead (production : Production) (c : Cursor) : Prop :=
  ∃ w : Written, w.production = production ∧ c.CanRead w.items []
    ∧ c.substitutions = w.items.filterMap Item.node?

theorem whole_yields {α : Type} {production : Production} {p : Parser α} {g : α → Node}
    (hp : Yields p c (fun a c' => ∃ w : Written, w.production = production ∧ g a = w.tree
      ∧ c.Reaches w.items c' ∧ c'.items = [] ∧ 1 ≤ c'.looks) fails)
    (hf : FailsUnless (WholeAhead production c) fails) :
    Yields (do let a ← p; finish; return a) c (fun a c' => ∃ w : Written,
      w.production = production ∧ g a = w.tree ∧ c.Reaches w.items c' ∧ c'.items = []
      ∧ c'.substitutions = []) fails := by
  refine hp.bind ?_
  intro a c₁ hpost
  obtain ⟨w, hw, htree, hr, hnil, hl⟩ := hpost
  refine (finish_yields hnil hl (hf.mono ?_)).bind ?_
  · intro h
    obtain ⟨v, hv, h, hs⟩ := h
    have hi := h.items.symm.trans hr.items
    rw [List.append_nil, hnil, List.append_nil] at hi
    obtain rfl := Written.items_inj (hv.trans hw.symm) hi
    exact List.self_eq_append_right.1 (hs.symm.trans hr.substitutions)
  · intro _ c₂ hpost
    obtain ⟨hs, hr₂⟩ := hpost
    have hr' := hr.trans hr₂
    rw [List.append_nil] at hr'
    exact yields_pure ⟨w, hw, htree, hr', hr₂.items_eq hnil, hs⟩

theorem production_yields {production : Production} (hreg : c.Regular)
    (hl : 12 ≤ c.looks) (hf : FailsUnless (WholeAhead production c) fails) :
    Yields production.parser c (fun n c' => ∃ w : Written, w.production = production ∧ n = w.tree
      ∧ c.Reaches w.items c' ∧ c'.items = [] ∧ c'.substitutions = []) fails := by
  cases production with
  | pattern =>
    refine Yields.map (whole_yields (g := .pattern) ?_ hf)
    refine (pattern_yields hreg (by omega) (hf.mono ?_)).mono ?_
    · intro h
      obtain ⟨_ | _, hw, h, -⟩ := h
      · exact ⟨_, h⟩
      · cases hw
    · intro _ c' h
      obtain ⟨p, rfl, h⟩ := h
      exact ⟨.pattern p, rfl, rfl, h⟩
  | flags =>
    refine Yields.map (whole_yields (g := .flags) ?_ hf)
    refine (flags_yields (by omega) (hf.mono ?_)).mono ?_
    · intro h
      obtain ⟨_ | _, hw, h, -⟩ := h
      · cases hw
      · exact ⟨_, h⟩
    · intro _ c' h
      obtain ⟨f, rfl, h⟩ := h
      exact ⟨.flags f, rfl, rfl, h⟩

end Parser

end RegexLiteral
