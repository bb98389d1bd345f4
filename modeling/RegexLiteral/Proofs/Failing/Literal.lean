import RegexLiteral.Proofs.Failing.Element
import RegexLiteral.Proofs.Reading.Literal

/-!
# Errors in literals

What goes wrong in an alternative goes wrong in the literal, because the alternatives before it are
the same whatever follows. Behind the closing slash a character is wrong that is no letter of a
flag, or one of a flag that has been seen. So the error of a literal is reported behind what can be
completed to one, and no literal begins with what its range shows (`wholePattern_fails`).
-/

namespace RegexLiteral

namespace Written

variable {x used v : List Item} {seen : FlagSet} {L : List Item → Prop}

/-! ## What a literal can begin with -/

/-- With at most three characters more, none of them a line terminator, it is in `L`. -/
def Completes (L : List Item → Prop) (used : List Item) : Prop :=
  ∃ after : List Char, after.length ≤ 3 ∧ (∀ c ∈ after, ¬ isLineTerminator c)
    ∧ L (used ++ after.map .char)

/-- Nothing that begins with it is in `L`. -/
def Excludes (L : List Item → Prop) (v : List Item) : Prop := ∀ r, ¬ L (v ++ r)

/-- Letters of different flags, none of which is in `seen`. -/
def IsLetters (seen : FlagSet) (is : List Item) : Prop :=
  ∃ fs : List Flag, fs.Nodup ∧ (∀ f ∈ fs, seen.has f = false)
    ∧ is = fs.map fun f => .char f.letter

/-- What stands behind an alternative: the alternatives after it, a slash and letters. -/
inductive IsRest : List Item → Prop
  | close {x : List Item} (h : IsLetters .none x) : IsRest (.char '/' :: x)
  | pipe (a : Alternative) {x : List Item} (h : IsRest x) : IsRest (.char '|' :: (a.items ++ x))

/-- An alternative and what stands behind it. -/
def IsBody (is : List Item) : Prop :=
  ∃ (a : Alternative) (x : List Item), IsRest x ∧ is = a.items ++ x

/-- A literal without cuts. -/
def IsLiteral (is : List Item) : Prop := ∃ x, IsBody x ∧ is = .char '/' :: x

theorem IsRest.exists_items (h : IsRest x) : ∃ (as : List Alternative) (f : Flags),
    x = as.flatMap (fun a => .char '|' :: a.items) ++ .char '/' :: f.items := by
  induction h with
  | close h =>
    obtain ⟨fs, hnd, -, rfl⟩ := h
    exact ⟨[], .letters fs hnd, rfl⟩
  | pipe a _ ih =>
    obtain ⟨as, f, rfl⟩ := ih
    exact ⟨a :: as, f, by rw [List.flatMap_cons, List.append_assoc]; rfl⟩

/-- Alternatives and their pipes before a rest of a literal make another. -/
theorem IsRest.append (h : IsRest x) : ∀ as : List Alternative,
    IsRest (as.flatMap (fun a => .char '|' :: a.items) ++ x)
  | [] => h
  | a :: as => by
    rw [List.flatMap_cons, List.append_assoc]
    exact .pipe a (h.append as)

/-- Without cuts a literal is what a derivation is written with. -/
theorem isLiteral_iff {cs : List Char} :
    IsLiteral (cs.map .char) ↔ ∃ p : Pattern, p.items = cs.map .char := by
  constructor
  · intro hex
    obtain ⟨_, ⟨a, x, hx, rfl⟩, h⟩ := hex
    obtain ⟨as, f, rfl⟩ := hx.exists_items
    exact ⟨⟨a, as, f⟩, by rw [h, Pattern.items]; simp⟩
  · intro hex
    obtain ⟨⟨a, as, f⟩, h⟩ := hex
    cases f with
    | letters fs hnd =>
      refine ⟨_, ⟨a, _, (IsRest.close ⟨fs, hnd, by simp, rfl⟩).append as, rfl⟩, ?_⟩
      rw [← h, Pattern.items]
      simp [Flags.items]
    | node f =>
      have hmem : Item.node (.flags f) ∈ cs.map Item.char := by
        rw [← h, Pattern.items]
        simp [Flags.items]
      obtain ⟨c, -, hc⟩ := List.mem_map.1 hmem
      cases hc

theorem isLetters_cons {a : Char} : IsLetters seen (.char a :: x)
    ↔ ∃ f : Flag, f.letter = a ∧ seen.has f = false ∧ IsLetters (seen.insert f) x := by
  constructor
  · intro hex
    obtain ⟨_ | ⟨f, fs⟩, hnd, hseen, h⟩ := hex
    · cases h
    · obtain ⟨ha, hx⟩ := List.cons.inj h
      exact ⟨f, (Item.char.inj ha).symm, hseen f List.mem_cons_self, fs,
        (List.nodup_cons.1 hnd).2, Parser.has_insert_of_nodup hnd hseen, hx⟩
  · intro hex
    obtain ⟨f, rfl, hf, fs, hnd, hseen, rfl⟩ := hex
    simp only [FlagSet.has_insert, Bool.or_eq_false_iff, beq_eq_false_iff_ne] at hseen
    refine ⟨f :: fs, List.nodup_cons.2 ⟨fun hmem => (hseen f hmem).2 rfl, hnd⟩, ?_, rfl⟩
    intro g hg
    rcases List.mem_cons.1 hg with rfl | hg
    · exact hf
    · exact (hseen g hg).1

theorem isLetters_nil (seen : FlagSet) : IsLetters seen [] := ⟨[], List.nodup_nil, by simp, rfl⟩

theorem IsRest.endsAlternative (h : IsRest x) : EndsAlternative x := by
  cases h with
  | close => exact .inr ⟨'/', by decide, _, rfl⟩
  | pipe => exact .inr ⟨'|', by decide, _, rfl⟩

/-- What completes an alternative and a slash complete a literal. -/
theorem Viable.completes (h : Viable used) : Completes IsBody used := by
  obtain ⟨after, hafter, es, hes, hitems⟩ := h
  have hlen : ∀ after ∈ completions, after.length ≤ 2 ∧ ∀ c ∈ after, ¬ isLineTerminator c := by
    simp [completions, isLineTerminator]
  obtain ⟨hle, hclean⟩ := hlen after hafter
  refine ⟨after ++ ['/'], ?_, ?_, ⟨es, hes⟩, _, .close (isLetters_nil _), ?_⟩
  · rw [List.length_append]
    exact Nat.succ_le_succ hle
  · intro c hc
    rcases List.mem_append.1 hc with hc | hc
    · exact hclean c hc
    · rw [List.mem_singleton.1 hc]
      simp [isLineTerminator]
  · rw [Alternative.items, hitems, List.map_append, List.append_assoc]
    rfl

theorem Doomed.excludes (h : Doomed v) : Excludes IsBody v := by
  rintro r ⟨a, x, hx, hitems⟩
  exact h.never a.elements x r a.fits hx.endsAlternative hitems.symm

theorem Completes.append {L' : List Item → Prop} {u : List Item} (h : Completes L used)
    (hL : ∀ x, L x → L' (u ++ x)) : Completes L' (u ++ used) := by
  obtain ⟨after, hlen, hclean, h⟩ := h
  exact ⟨after, hlen, hclean, by rw [List.append_assoc]; exact hL _ h⟩

/-- No rest of a literal begins with it, and the alternative before it ends there. -/
structure RestDoomed (v : List Item) : Prop where
  head : ∃ c ∈ ['/', '|'], ∃ u, v = .char c :: u
  never : Excludes IsRest v

theorem RestDoomed.excludes (h : RestDoomed v) (a : Alternative) :
    Excludes IsBody (a.items ++ v) := by
  rintro r ⟨b, x, hx, hitems⟩
  obtain ⟨c, hc, u, rfl⟩ := h.head
  rw [List.append_assoc] at hitems
  obtain ⟨-, rfl⟩ := Alternative.items_append_inj (.inr ⟨c, hc, u ++ r, rfl⟩) hx.endsAlternative
    hitems
  exact h.never r hx

theorem Excludes.pipe (h : Excludes IsBody v) : RestDoomed (.char '|' :: v) where
  head := ⟨'|', by decide, v, rfl⟩
  never := by
    intro r hr
    generalize hx : Item.char '|' :: v ++ r = x at hr
    cases hr with
    | close => simp at hx
    | pipe a hrest => exact h r ⟨a, _, hrest, (List.cons.inj hx).2⟩

theorem Excludes.close (h : Excludes (IsLetters .none) v) : RestDoomed (.char '/' :: v) where
  head := ⟨'/', by decide, v, rfl⟩
  never := by
    intro r hr
    generalize hx : Item.char '/' :: v ++ r = x at hr
    cases hr with
    | close hletters =>
      obtain rfl := (List.cons.inj hx).2
      exact h r hletters
    | pipe => simp at hx

theorem RestDoomed.append (h : RestDoomed v) : ∀ as : List Alternative,
    RestDoomed (as.flatMap (fun a => .char '|' :: a.items) ++ v)
  | [] => h
  | a :: as => by
    rw [List.flatMap_cons, List.append_assoc]
    exact ((h.append as).excludes a).pipe

theorem Excludes.literal (h : Excludes IsBody v) : Excludes IsLiteral (.char '/' :: v) := by
  rintro r ⟨x, hx, hitems⟩
  obtain rfl := (List.cons.inj hitems).2
  exact h r hx

end Written

namespace Parser

open Written

variable {c : Cursor} {seen : FlagSet}

/-! ## Flags -/

theorem flagTokens_fails : ∀ (n : Nat) (seen : FlagSet) {c : Cursor}, c.Plain →
    c.lexemes.length < n → 4 ≤ c.looks → Fails (flagTokens n seen) c
      (c.Stops (Completes (IsLetters seen)) (Excludes (IsLetters seen)))
  | 0, seen, c, hp, hn, hl => by omega
  | n + 1, seen, c, hp, hn, hl => by
    have hnil : Completes (IsLetters seen) [] := ⟨[], by simp, by simp, isLetters_nil seen⟩
    refine look_bind (by omega) ?_
    split
    · exact yields_pure trivial
    · rename_i hk
      exact absurd hk hp.kindAt_ne
    · rename_i hk
      exact yields_fail (Cursor.stops_here hnil (.inr hk))
    · rename_i heof hcut hterm
      obtain ⟨i, rest, hc⟩ := Cursor.exists_item heof
      have hk : c.kindAt 0 = i.kind := Cursor.kindAt_zero hc
      obtain ⟨a, rfl⟩ := Item.exists_char (hk ▸ hp.kindAt_ne) (hk ▸ hterm)
      have hchars : c.looked.chars = [a] := by
        rw [Cursor.chars, Cursor.charsAt_eq, Cursor.items_looked, hc]
        rfl
      -- The character is wrong if it is no letter that can come next.
      have stops {cause : Cause} (hwrong : ∀ f : Flag, f.letter = a → seen.has f = true) :
          c.Stops (Completes (IsLetters seen)) (Excludes (IsLetters seen))
            (.error ⟨cause, c.span, []⟩) := by
        refine Cursor.stops_at (v := [.char a]) hnil hc (fun r hr => ?_)
          (.whole (Cursor.span_stop hc))
        obtain ⟨f, hf, hseen, -⟩ := isLetters_cons.1 hr
        exact Bool.false_ne_true (hseen.symm.trans (hwrong f hf))
      refine get_bind ?_
      rw [hchars]
      split
      · rename_i hnone
        refine yields_fail (stops fun f hf => ?_)
        rw [← hf] at hnone
        exact absurd ((Flag.ofLetter?_letter f).symm.trans hnone) (by simp)
      rename_i f hfa
      obtain rfl : f.letter = a := Flag.letter_of_ofLetter? hfa
      split
      · rename_i hseen
        exact yields_fail (stops fun g hg => letter_injective hg ▸ hseen)
      rename_i hseen
      refine (token_plain_yields .keyword hp.looked hc (fun hg => hterm (hk.trans hg)) ?_).bind ?_
      · rw [Cursor.looks_looked]
        omega
      intro _ c₁ hpost
      obtain ⟨rfl, hr, hl₁⟩ := hpost
      rw [Cursor.looked_reaches] at hr
      have hlen := hr.length_lt (by simp)
      refine ((flagTokens_fails n (seen.insert f) (hp.reaches hr) (by omega)
        (by omega)).imp fun e he => ?_).bind fun _ _ _ => yields_pure trivial
      refine he.after hp.placed hr (fun used _ _ h => h.append fun x hx => ?_)
        fun v _ _ h r hx => ?_
      · exact isLetters_cons.2 ⟨f, rfl, by simpa using hseen, hx⟩
      · obtain ⟨g, hg, -, hx⟩ := isLetters_cons.1 hx
        rw [letter_injective hg] at hx
        exact h r hx

theorem flags_fails (hp : c.Plain) (hl : 6 ≤ c.looks) : Fails flags c
    (c.Stops (Completes (IsLetters .none)) (Excludes (IsLetters .none))) := by
  have hl' : 4 ≤ c.looked.looks := by
    rw [Cursor.looks_looked]
    omega
  refine isAt_bind (by omega) ?_
  rw [if_neg (by simpa using hp.kindAt_ne)]
  refine get_bind ((flagTokens_yields _ .none (c := c.looked) (Nat.lt_succ_self _) hl'
    (failsUnless_isProper _)).bind_fails
      (flagTokens_fails _ .none hp.looked (Nat.lt_succ_self _) hl') ?_)
  intro _ c₁ hpost
  obtain ⟨fs, hnd, -, rfl, -⟩ := hpost
  rw [sound_eq (flags_eq hnd)]
  exact yields_pure trivial

/-! ## Alternatives -/

theorem body_fails (hp : c.Plain) (hl : 10 ≤ c.looks) :
    Fails alternative c (c.Stops (Completes IsBody) (Excludes IsBody)) :=
  (alternative_fails hp hl).imp fun _ he => he.mono (fun _ h => h.completes) fun _ h => h.excludes

theorem nextAlternative_fails (hp : c.Plain) (hl : 9 ≤ c.looks) :
    Fails nextAlternative c (c.Stops (Completes IsRest) RestDoomed) := by
  refine isAt_bind (by omega) ?_
  split
  case isFalse => exact yields_pure trivial
  case isTrue hk =>
  have hk := eq_of_beq hk
  obtain ⟨x, hc⟩ := Cursor.exists_char_of_kindAt hk rfl
  refine (token_plain_yields .punctuator hp.looked hc (by decide) ?_).bind ?_
  · rw [Cursor.looks_looked]
    omega
  intro _ c₁ hpost
  obtain ⟨rfl, hr, hl₁⟩ := hpost
  rw [Cursor.looked_reaches] at hr
  refine ((body_fails (hp.reaches hr) (by omega)).imp fun e he => ?_).bind
    fun _ _ _ => yields_pure trivial
  refine he.after hp.placed hr (fun used _ _ h => h.append fun x hx => ?_) fun v _ _ h => h.pipe
  obtain ⟨a, y, hy, rfl⟩ := hx
  exact .pipe a hy

theorem alternatives_fails (hp : c.Plain) (hl : 9 ≤ c.looks) :
    Fails (collect nextAlternative) c (c.Stops (Completes IsRest) RestDoomed) := by
  refine collect_fails (I := fun c => c.Plain ∧ 9 ≤ c.looks)
    (F := fun c => c.Stops (Completes IsRest) RestDoomed) ?_ ⟨hp, hl⟩
  intro c hpost
  obtain ⟨hp, hl⟩ := hpost
  refine Yields.mono (((nextAlternative_yields hp.toRegular hl (failsUnless_isProper _)).and
    (nextAlternative_fails hp hl)).imp fun _ he => he.2) ?_
  rintro (_ | r) c' h hsome
  · cases hsome
  obtain ⟨w, rfl, hr, hl', -⟩ := h
  refine ⟨hr.length_lt (by simp), ⟨hp.reaches hr, hl'⟩, fun e he => ?_⟩
  exact he.after hp.placed hr (fun used _ _ h => h.append fun x hx => .pipe w hx)
    fun v _ _ h => (h.excludes w).pipe

/-! ## Slashes -/

theorem openingSlash_fails (hp : c.Plain) (hl : 2 ≤ c.looks) :
    Fails openingSlash c (c.Stops (Completes IsLiteral) (Excludes IsLiteral)) := by
  have hnil : Completes IsLiteral [] := ⟨['/', '/'], by simp, by simp [isLineTerminator], _,
    ⟨⟨[], trivial⟩, _, .close (isLetters_nil _), rfl⟩, rfl⟩
  refine look_bind (by omega) ?_
  split
  · rename_i hk
    obtain ⟨x, hc⟩ := Cursor.exists_char_of_kindAt hk rfl
    let c₁ : Cursor := { c with delimiters := ⟨.slash, c.span⟩ :: c.delimiters }
    have hp₁ : c₁.Plain := hp.delimit (.inl rfl)
    refine modify_bind ((token_plain_yields .punctuator hp₁.looked hc (by decide) ?_).mono
      fun _ _ _ => trivial)
    rw [Cursor.looks_looked]
    exact Nat.sub_pos_of_lt hl
  · rename_i hk
    exact absurd hk hp.kindAt_ne
  · rename_i hk
    exact yields_fail (Cursor.stops_here hnil (.inr hk))
  · rename_i hslash _ _
    refine yields_fail ?_
    cases hc : c.items with
    | nil => exact Cursor.stops_here hnil (.inl (Cursor.kindAt_nil hc))
    | cons i rest =>
      refine Cursor.stops_at (v := [i]) hnil hc ?_ (.whole (Cursor.span_stop hc))
      rintro r ⟨x, -, hx⟩
      exact hslash (by rw [Cursor.kindAt_zero hc, (List.cons.inj hx).1]; rfl)

theorem closingSlash_fails (hp : c.Plain) (hk : c.kindAt 0 ≠ .pipe) (hend : EndsAlternative c.items)
    (hl : 2 ≤ c.looks) : Fails closingSlash c (c.Stops (Completes IsRest) RestDoomed) := by
  refine isAt_bind (by omega) ?_
  split
  · rename_i hk
    obtain ⟨x, hc⟩ := Cursor.exists_char_of_kindAt (eq_of_beq hk) rfl
    refine (token_plain_yields .punctuator hp.looked hc (by decide) ?_).bind
      fun _ _ _ => modify_bind (yields_pure trivial)
    rw [Cursor.looks_looked]
    omega
  · rename_i hslash
    refine failUnclosed_yields (c := c.looked) hp.looked.toRegular fun _ => ?_
    refine Cursor.stops_here ⟨['/'], by simp, by simp [isLineTerminator],
      .close (isLetters_nil _)⟩ (.inl ?_)
    rcases hend with hc | ⟨a, ha, rest, hc⟩
    · exact Cursor.kindAt_nil hc
    · have hkind := Cursor.kindAt_zero hc
      simp only [List.mem_cons, List.not_mem_nil, or_false] at ha
      rcases ha with rfl | rfl
      · exact absurd (beq_iff_eq.2 hkind) hslash
      · exact absurd hkind hk

/-! ## Literals -/

/-- An error is reported behind what can be completed to a literal, and no literal begins with what
its range shows. -/
theorem pattern_fails (hp : c.Plain) (hl : 2 ≤ c.looks) :
    Fails pattern c (c.Stops (Completes IsLiteral) (Excludes IsLiteral)) := by
  refine (openingSlash_yields hl (failsUnless_isProper _)).bind_fails (openingSlash_fails hp hl) ?_
  intro _ c₁ hpost
  obtain ⟨rfl, d, hd, hr₁, hl₁⟩ := hpost
  let c₀ : Cursor := { c with delimiters := d :: c.delimiters }
  have hp₀ : c₀.Plain := hp.delimit (.inl hd)
  have hp₁ := hp₀.reaches hr₁
  have lift₁ {e : Failure} (he : c₁.Stops (Completes IsBody) (Excludes IsBody) e) :
      c.Stops (Completes IsLiteral) (Excludes IsLiteral) e :=
    Cursor.Stops.after (c := c₀) (u := [_]) he hp₀.placed hr₁
      (fun used _ _ h => h.append fun x hx => ⟨x, hx, rfl⟩) fun v _ _ h => h.literal
  have hl₁' : 10 ≤ c₁.looks := by omega
  refine (alternative_yields hp₁.toRegular hl₁' (failsUnless_isProper _)).bind_fails
    ((body_fails hp₁ hl₁').imp fun e he => lift₁ he) ?_
  intro _ c₂ hpost
  obtain ⟨first, rfl, hr₂, hend₂, hl₂⟩ := hpost
  have hp₂ := hp₁.reaches hr₂
  have lift₂ {e : Failure} (he : c₂.Stops (Completes IsRest) RestDoomed e) :
      c.Stops (Completes IsLiteral) (Excludes IsLiteral) e :=
    lift₁ (he.after hp₁.placed hr₂ (fun used _ _ h => h.append fun x hx => ⟨first, x, hx, rfl⟩)
      fun v _ _ h => h.excludes first)
  refine (alternatives_yields hp₂.toRegular hl₂ hend₂ (failsUnless_isProper _)).bind_fails
    ((alternatives_fails hp₂ hl₂).imp fun e he => lift₂ he) ?_
  intro _ c₃ hpost
  obtain ⟨rest, rfl, hr₃, hl₃, hk₃, hend₃, -⟩ := hpost
  have hp₃ := hp₂.reaches hr₃
  have lift₃ {e : Failure} (he : c₃.Stops (Completes IsRest) RestDoomed e) :
      c.Stops (Completes IsLiteral) (Excludes IsLiteral) e :=
    lift₂ (he.after hp₂.placed hr₃ (fun used _ _ h => h.append fun x hx => hx.append rest)
      fun v _ _ h => h.append rest)
  have hl₃' : 2 ≤ c₃.looks := by omega
  refine (closingSlash_yields hk₃ hp₃.toRegular hl₃' (failsUnless_isProper _)).bind_fails
    ((closingSlash_fails hp₃ hk₃ hend₃ hl₃').imp fun e he => lift₃ he) ?_
  intro _ c₅ hpost
  obtain ⟨rfl, c₄, hr₄, rfl, hl₅, -⟩ := hpost
  have hp₅ := (hp₃.reaches hr₄).undelimit
  have hl₅' : 6 ≤ Cursor.looks { c₄ with delimiters := c₄.delimiters.tail } := by omega
  refine (flags_yields hl₅' (failsUnless_isProper _)).bind_fails
    ((flags_fails hp₅ hl₅').imp fun e he => lift₃ ?_) ?_
  · have he : c₄.Stops (Completes (IsLetters .none)) (Excludes (IsLetters .none)) e := he
    exact he.after (u := [_]) hp₃.placed hr₄
      (fun used _ _ h => h.append fun x hx => .close hx) fun v _ _ h => h.close
  intro _ c₆ hpost
  obtain ⟨f, rfl, -⟩ := hpost
  rw [sound_eq (pattern_eq ⟨first, rest, f⟩)]
  exact yields_pure trivial

theorem wholePattern_fails (hp : c.Plain) (hs : c.substitutions = []) (hl : 2 ≤ c.looks) :
    Fails wholePattern c (c.Stops (Completes IsLiteral) (Excludes IsLiteral)) := by
  refine (pattern_yields hp.toRegular hl (failsUnless_isProper _)).bind_fails
    (pattern_fails hp hl) ?_
  intro _ c₁ hpost
  obtain ⟨p, rfl, hr, hnil, hl₁⟩ := hpost
  have hs₁ : c₁.substitutions = [] := by
    have h := hr.substitutions
    rw [hs] at h
    exact (List.append_eq_nil_iff.1 h.symm).2
  exact (finish_yields hnil hl₁ fun _ _ h => absurd hs₁ h).bind fun _ _ _ => yields_pure trivial

end Parser

end RegexLiteral
