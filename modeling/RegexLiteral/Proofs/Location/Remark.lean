import RegexLiteral.Proofs.Derivation
import RegexLiteral.Proofs.Location.Standing

/-!
# Errors with a remark

Three errors point to a second range: a class that is not closed, a literal that is not closed, and
a backslash without a code. All three are found at the end of the source, where the second range is
that of what is left open. The parsers that can meet them are followed one after another, as far as
a whole literal and flags (`production_explains`).
-/

namespace RegexLiteral

open Written

namespace Parser

variable {α β : Type} {c : Cursor} {cs : List Char} {b : Option Nat} {p : Nat}

/-- The errors of the run are explained. -/
abbrev Explains (cs : List Char) (q : Parser α) (c : Cursor) : Prop :=
  Fails q c (Failure.Reports (ParseError.Explained cs))

theorem Quiet.explains {q : Parser α} (h : Quiet cs q) (hc : c.In cs) : Explains cs q c :=
  ((h c hc).mono fun _ _ _ => trivial).imp fun _ he => he.mono fun _ he => .bare he

theorem explains_failAt {span : Span} {cause : Cause} (h : span.Within cs) :
    Explains cs (failAt span cause : Parser α) c :=
  yields_failAt (.bare ⟨h, rfl⟩)

theorem explains_sound (r : Except InvalidNode α) : Explains cs (sound r) c := by
  unfold sound
  split
  · exact yields_pure trivial
  · exact trivial

/-- At the end of the source the innermost delimiter is what is still open. -/
theorem explains_failUnclosed {cause : Cause} {remark : Remark} {post : α → Cursor → Prop}
    (h : c.Stands cs b) (hk : c.kindAt 0 = .eof)
    (hblames : cause.kind.Blames cs (Cursor.opener b).span) :
    Yields (failUnclosed cause remark) c post
      (Failure.Reports (ParseError.Explained cs)) := by
  refine get_bind ?_
  have hd := h.delimiter
  split
  · rename_i hnil
    simp [hnil] at hd
  · rename_i d ds hcons
    obtain rfl : d = Cursor.opener b := by simpa [hcons] using hd
    rw [if_pos (by cases b <;> rfl)]
    exact yields_failBecause (.remark _ rfl (h.ends hk).1 hblames)

/-! ## Escapes -/

theorem escapeCode_explains (h : c.Stands cs b) (hk : c.kindAt 0 = .backslash) (hl : 2 ≤ c.looks) :
    Explains cs escapeCode c := by
  obtain ⟨rest, hc⟩ := Cursor.exists_char_of_kindAt hk rfl
  refine expect_bind (by omega) hk (get_bind ?_)
  refine (consume_yields (c := c.looked) hc (by decide) ?_ h.looked.mayFail).bind ?_
  · rw [Cursor.looks_looked]
    omega
  rintro _ c₁ ⟨-, -, hr, hl₁⟩
  rw [Cursor.looked_reaches] at hr
  have hin : c₁.In cs := h.toIn.reaches hr
  have hin₁ : c₁.looked.In cs := ⟨hin.source, hin.placed⟩
  refine isAt_bind (by omega) ?_
  split
  · exact (quiet_fail _).explains hin₁
  rename_i hcut
  refine isAt_bind (by rw [Cursor.looks_looked]; omega) ?_
  have hin₂ : c₁.looked.looked.In cs := ⟨hin.source, hin.placed⟩
  split
  · exact (quiet_fail _).explains hin₂
  rename_i hterm
  refine get_bind ?_
  split
  · -- Nothing stands behind the backslash, so the source ends with it.
    rename_i hchars
    have hk₁ : c₁.kindAt 0 = .eof := by
      by_contra heof
      obtain ⟨i, rest, hc₁⟩ := Cursor.exists_item heof
      have hki := Cursor.kindAt_zero hc₁
      obtain ⟨a, rfl⟩ := Item.exists_char (fun hi => hcut (beq_iff_eq.2 (hki.trans hi)))
        fun hi => hterm (beq_iff_eq.2 (hki.trans hi))
      rw [Cursor.chars, Cursor.charsAt_eq, Cursor.items_looked, Cursor.items_looked, hc₁] at hchars
      simp [Item.chars] at hchars
    obtain ⟨n, hscans⟩ := h.scans
    obtain ⟨hspan₁, hscan⟩ := (hscans.reaches hr).ends hk₁
    have hescaping : (Scan.of cs).escaping = true := by rw [hscan]; rfl
    obtain ⟨before, rfl, hbefore⟩ := Scan.exists_of_escaping hescaping
    have hsize : n = byteSize before := by
      have hn : (Scan.of (before ++ ['\\'])).size = n + 1 := by rw [hscan]; rfl
      rw [Scan.size_of, byteSize_append] at hn
      exact (Nat.succ.inj hn).symm
    have hspan : c.looked.span = ⟨byteSize before, byteSize before + 1⟩ := by
      rw [← hsize]
      exact hscans.span_eq hc
    rw [hspan]
    exact yields_failBecause (.remark _ rfl hspan₁ (.inr (Scan.isLastBackslash hbefore)))
  · exact (quiet_consume.bind fun _ => quiet_pure _).explains hin₂

theorem escape_explains (h : c.Stands cs b) (hk : c.kindAt 0 = .backslash) (hl : 2 ≤ c.looks) :
    Explains cs escape c := by
  refine (escapeCode_yields hk hl (failsUnless_isProper _)).bind_fails
    (escapeCode_explains h hk hl) fun code c' _ => ?_
  split
  · rename_i hw
    rw [wordSet_eq hw, pure_bind]
    exact yields_pure trivial
  split
  · rename_i hg
    rw [eq_of_beq hg, gap_eq, pure_bind]
    exact yields_pure trivial
  · rw [escapedCharacter_eq, pure_bind]
    exact yields_pure trivial

theorem classEscape_explains (h : c.Stands cs b) (hk : c.kindAt 0 = .backslash)
    (hl : 2 ≤ c.looks) : Explains cs classEscape c := by
  refine (escapeCode_yields hk hl (failsUnless_isProper _)).bind_fails
    (escapeCode_explains h hk hl) fun code c' _ => ?_
  split
  · rename_i hw
    rw [wordSet_eq hw, pure_bind]
    exact yields_pure trivial
  · rw [escapedCharacter_eq, pure_bind]
    exact yields_pure trivial

/-! ## Classes -/

theorem classAtom_explains (h : c.Stands cs b) (hl : 3 ≤ c.looks) : Explains cs classAtom c := by
  refine look_bind (by omega) ?_
  split
  · rename_i hk
    refine classEscape_explains h.looked hk ?_
    rw [Cursor.looks_looked]
    omega
  · exact (quiet_splice _ _).explains h.looked.toIn
  · exact (quiet_literal.map _).explains h.looked.toIn

theorem rangeEnd_explains (h : c.Stands cs b) (hl : 3 ≤ c.looks) : Explains cs rangeEnd c := by
  refine get_bind ((classAtom_explains h hl).bind fun e c' _ => ?_)
  split
  · exact yields_pure trivial
  · exact explains_failAt h.toIn.within_span

theorem rangeFrom_explains (min : Character) (h : c.Stands cs (some p)) (hl : 3 ≤ c.looks) :
    Explains cs (rangeFrom min) c := by
  refine (isAtRange_yields (by omega)).bind ?_
  rintro b c₁ ⟨hr₁, hl₁, hrange, -⟩
  have h₁ := h.reaches hr₁ (Scan.steady_nil _)
  split
  · rename_i hb
    obtain ⟨i, rest, hc, -⟩ := hrange hb
    rw [hr₁.items] at hc
    refine (token_char_yields .punctuator hc (by omega) h₁.mayFail).bind ?_
    rintro _ c₂ ⟨rfl, hr₂, hl₂⟩
    have h₂ := h₁.reaches hr₂ (Scan.steady_inside p (by simp) (by simp))
    exact (rangeEnd_explains h₂ (by omega)).bind fun _ _ _ =>
      (explains_sound _).bind fun _ _ _ => yields_pure trivial
  · exact yields_pure trivial

theorem classElement_explains (h : c.Stands cs (some p)) (hl : 3 ≤ c.looks)
    (hclose : c.kindAt 0 ≠ .bracketClose) (heof : c.kindAt 0 ≠ .eof) :
    Explains cs classElement c := by
  refine (classAtom_yields hl hclose heof (failsUnless_isProper _)).bind_fails
    (classAtom_explains h hl) ?_
  rintro _ c₁ ⟨a, rfl, hr, hl₁⟩
  split
  · exact rangeFrom_explains _ (h.reaches hr (a.steady p)) (by omega)
  · exact yields_pure trivial

theorem classElements_explains (h : c.Stands cs (some p)) (hl : 4 ≤ c.looks) :
    Explains cs classElements c := by
  refine collect_fails (I := fun c => c.Stands cs (some p) ∧ 4 ≤ c.looks)
    (F := fun _ => Failure.Reports (ParseError.Explained cs)) ?_ ⟨h, hl⟩
  rintro c ⟨h, hl⟩
  have hl' : 3 ≤ c.looked.looks := by
    rw [Cursor.looks_looked]
    omega
  refine look_bind (by omega) ?_
  split
  · exact yields_pure (by simp)
  · -- The source ends in the class.
    rename_i hk
    exact explains_failUnclosed h.looked hk (Scan.isOpenBracket (h.ends hk).2)
  · rename_i hclose heof
    refine Yields.map (Yields.mono ((classElement_yields (c := c.looked) hl' hclose heof
      (failsUnless_isProper _)).and (classElement_explains h.looked hl' hclose heof) |>.imp
        fun _ he => he.2) ?_)
    rintro _ c' ⟨as, hne, hr, hlooks, -⟩ -
    rw [Cursor.looked_reaches] at hr
    refine ⟨hr.length_lt fun hnil => ?_, ⟨h.reaches hr (ClassAtom.steady_flatMap p as), hlooks⟩,
      fun e he => he⟩
    obtain ⟨a, as, rfl⟩ := List.exists_cons_of_ne_nil hne
    cases a <;> simp [ClassAtom.items] at hnil

theorem classBody_explains (h : c.Stands cs (some p)) (hl : 5 ≤ c.looks) :
    Explains cs classBody c := by
  refine (negation_yields (by omega) h.mayFail).bind ?_
  rintro _ c₁ (⟨rfl, hr, hl₁⟩ | ⟨rfl, hk, rfl⟩)
  · have h₁ := h.reaches hr (Scan.steady_inside p (by simp) (by simp))
    exact (classElements_explains h₁ (by omega)).bind fun _ _ _ => yields_pure trivial
  · refine (classElements_explains h.looked ?_).bind fun _ _ _ => yields_pure trivial
    rw [Cursor.looks_looked]
    omega

theorem characterClass_explains (h : c.Stands cs none) (hk : c.kindAt 0 = .bracketOpen)
    (hl : 2 ≤ c.looks) : Explains cs characterClass c := by
  refine expect_bind (by omega) hk (modify_bind ?_)
  obtain ⟨rest, hc⟩ := Cursor.exists_char_of_kindAt hk rfl
  let c₁ : Cursor :=
    { c.looked with delimiters := ⟨.bracketOpen, c.looked.span⟩ :: c.looked.delimiters }
  have hm₁ : c₁.MayFail (Failure.Reports (ParseError.Explained cs)) :=
    ⟨h.mayFail.terminator, h.mayFail.fuel⟩
  have hl₁ : 0 < c₁.looks := by
    rw [show c₁.looks = c.looks - 1 from rfl]
    omega
  refine (token_char_yields .punctuator (c := c₁) hc hl₁ hm₁).bind ?_
  rintro _ c₂ ⟨rfl, hr₂, hl₂⟩
  obtain ⟨p, h₂⟩ := h.looked.openClass hr₂
  have hl₂' : 5 ≤ c₂.looks := by omega
  refine (classBody_yields h₂.toRegular hl₂' (failsUnless_isProper _)).bind_fails
    (classBody_explains h₂ hl₂') ?_
  rintro _ c₃ ⟨body, rfl, hr₃, -⟩
  exact ((quiet_token _).explains (h₂.toIn.reaches hr₃)).bind fun _ _ _ =>
    modify_bind (explains_sound _)

/-! ## Alternatives -/

theorem element_explains (h : c.Stands cs none) (hl : 3 ≤ c.looks) : Explains cs element c := by
  have hl' : 2 ≤ c.looked.looks := by
    rw [Cursor.looks_looked]
    omega
  refine look_bind (by omega) ?_
  split
  · rename_i hk
    exact (characterClass_explains h.looked hk hl').bind fun _ _ _ => yields_pure trivial
  · rename_i hk
    exact (escape_explains h.looked hk hl').bind fun _ _ _ => yields_pure trivial
  · exact (quiet_splice _ _).explains h.looked.toIn
  · refine Quiet.explains (quiet_isAtSigil.bind fun b => ?_) h.looked.toIn
    split
    · exact quiet_fail _
    · exact quiet_literal.bind fun _ => quiet_pure _

theorem nextElement_explains (h : c.Stands cs none) (hl : 10 ≤ c.looks) :
    Explains cs nextElement c := by
  refine isAtAny_bind (by omega) ?_
  split
  · exact yields_pure trivial
  rename_i hend
  have hl' : 3 ≤ c.looked.looks := by
    rw [Cursor.looks_looked]
    omega
  refine (element_yields (c := c.looked) (by simpa using hend) h.looked.toRegular hl'
    (failsUnless_isProper _)).bind_fails (element_explains h.looked hl') ?_
  rintro _ c₁ ⟨e, -, rfl, hr, -⟩
  exact ((quiet_repeated _).map _).explains (h.looked.toIn.reaches hr)

theorem alternative_explains (h : c.Stands cs none) (hl : 10 ≤ c.looks) :
    Explains cs alternative c := by
  refine (collect_fails (I := fun c => c.Stands cs none ∧ 10 ≤ c.looks)
    (F := fun _ => Failure.Reports (ParseError.Explained cs)) ?_ ⟨h, hl⟩).bind
      fun _ _ _ => yields_pure trivial
  rintro c ⟨h, hl⟩
  refine Yields.mono (((nextElement_yields h.toRegular hl (failsUnless_isProper _)).and
    (nextElement_explains h hl)).imp fun _ he => he.2) ?_
  rintro (_ | e) c' hpost hsome
  · cases hsome
  obtain ⟨w, rfl, hr, hl', -⟩ := hpost
  refine ⟨hr.length_lt fun hnil => ?_, ⟨h.reaches hr w.steady, hl'⟩, fun e he => he⟩
  exact w.items_ne_nil (x := []) (by rw [hnil, List.append_nil])

theorem pipe_steady (w : Written.Alternative) :
    Scan.Steady none ((Item.char '|' :: w.items).flatMap Item.chars) :=
  (Scan.steady_singleton (by simp) (by simp) fun _ => rfl).append w.steady

theorem nextAlternative_explains (h : c.Stands cs none) (hl : 9 ≤ c.looks) :
    Explains cs nextAlternative c := by
  refine isAt_bind (by omega) ?_
  split
  case isFalse => exact yields_pure trivial
  case isTrue hk =>
  obtain ⟨x, hc⟩ := Cursor.exists_char_of_kindAt (eq_of_beq hk) rfl
  refine (token_char_yields .punctuator (c := c.looked) hc ?_ h.looked.mayFail).bind ?_
  · rw [Cursor.looks_looked]
    omega
  rintro _ c₁ ⟨rfl, hr, hl₁⟩
  have h₁ := h.looked.reaches hr (Scan.steady_singleton (by simp) (by simp) fun _ => rfl)
  exact (alternative_explains h₁ (by omega)).bind fun _ _ _ =>
    yields_pure trivial

theorem alternatives_explains (h : c.Stands cs none) (hl : 9 ≤ c.looks) :
    Explains cs (collect nextAlternative) c := by
  refine collect_fails (I := fun c => c.Stands cs none ∧ 9 ≤ c.looks)
    (F := fun _ => Failure.Reports (ParseError.Explained cs)) ?_ ⟨h, hl⟩
  rintro c ⟨h, hl⟩
  refine Yields.mono (((nextAlternative_yields h.toRegular hl (failsUnless_isProper _)).and
    (nextAlternative_explains h hl)).imp fun _ he => he.2) ?_
  rintro (_ | r) c' hpost hsome
  · cases hsome
  obtain ⟨w, rfl, hr, hl', -⟩ := hpost
  exact ⟨hr.length_lt (by simp), ⟨h.reaches hr (pipe_steady w), hl'⟩, fun e he => he⟩

/-! ## Literals -/

/-- Behind the opening slash the cursor stands in a literal. -/
theorem openingSlash_stands (h : c.Scans cs ⟨0, none, false⟩) (hl : 2 ≤ c.looks)
    (hreg : c.Regular) : Yields openingSlash c (fun _ c' => c'.Stands cs none
      ∧ 12 ≤ c'.looks) (Failure.Reports (ParseError.Explained cs)) := by
  have hin : c.looked.In cs := ⟨h.toIn.source, h.toIn.placed⟩
  have fails {cause : Cause} {post : Token → Cursor → Prop} : Yields (fail cause) c.looked post
      (Failure.Reports (ParseError.Explained cs)) :=
    yields_fail (.bare ⟨hin.within_span, rfl⟩)
  refine look_bind (by omega) ?_
  split
  · rename_i hk
    obtain ⟨rest, hc⟩ := Cursor.exists_char_of_kindAt hk rfl
    let c₁ : Cursor := { c.looked with delimiters := ⟨.slash, c.looked.span⟩ :: c.delimiters }
    have hm₁ : c₁.MayFail (Failure.Reports (ParseError.Explained cs)) :=
      ⟨fun _ => .bare ⟨hin.within_span, rfl⟩, fun _ => trivial⟩
    refine modify_bind ((token_char_yields .punctuator (c := c₁) hc ?_ hm₁).mono ?_)
    · exact Nat.sub_pos_of_lt hl
    rintro _ c' ⟨-, hr, hl'⟩
    have hscans : c₁.Scans cs ⟨0, none, false⟩ := ⟨h.source, h.scanned⟩
    refine ⟨⟨⟨?_, ?_⟩, ⟨1, hscans.reaches hr⟩, ?_, ?_⟩, hl'⟩
    · exact (hscans.toIn.reaches hr).placed
    · rw [hr.delimiters]
      rintro d (_ | ⟨_, hd⟩)
      · exact .inl rfl
      · exact hreg.delimited d hd
    · obtain ⟨taken, hlex, hchars⟩ := hr.flatMap_chars
      rw [h.eq_chars, show c.lexemes = taken ++ c'.lexemes from hlex, List.flatMap_append, hchars]
      rfl
    · have hspan : c.looked.span = ⟨0, 1⟩ := hscans.span_eq hc
      rw [hr.delimiters]
      exact congrArg (fun span => some (OpenDelimiter.mk .slash span)) hspan
  · exact fails
  · exact fails
  · exact fails

theorem closingSlash_explains (h : c.Stands cs none) (hk : c.kindAt 0 ≠ .pipe)
    (hend : EndsAlternative c.items) (hl : 0 < c.looks) : Explains cs closingSlash c := by
  refine isAt_bind hl ?_
  split
  · exact ((quiet_token _).explains h.looked.toIn).bind fun _ _ _ =>
      modify_bind (yields_pure trivial)
  · -- The source ends in the last alternative.
    rename_i hslash
    refine explains_failUnclosed h.looked ?_ (.inl h.isFirstSlash)
    rcases hend with hc | ⟨a, ha, rest, hc⟩
    · exact Cursor.kindAt_nil hc
    · have hkind := Cursor.kindAt_zero hc
      simp only [List.mem_cons, List.not_mem_nil, or_false] at ha
      rcases ha with rfl | rfl
      · exact absurd (beq_iff_eq.2 hkind) hslash
      · exact absurd hkind hk

theorem pattern_explains (h : c.Scans cs ⟨0, none, false⟩) (hreg : c.Regular) (hl : 2 ≤ c.looks) :
    Explains cs pattern c := by
  refine (openingSlash_stands h hl hreg).bind ?_
  rintro _ c₁ ⟨h₁, hl₁⟩
  have hl₁' : 10 ≤ c₁.looks := by omega
  refine (alternative_yields h₁.toRegular hl₁' (failsUnless_isProper _)).bind_fails
    (alternative_explains h₁ hl₁') ?_
  rintro _ c₂ ⟨first, rfl, hr₂, hend₂, hl₂⟩
  have h₂ := h₁.reaches hr₂ first.steady
  refine (alternatives_yields h₂.toRegular hl₂ hend₂ (failsUnless_isProper _)).bind_fails
    (alternatives_explains h₂ hl₂) ?_
  rintro _ c₃ ⟨rest, rfl, hr₃, hl₃, hk₃, hend₃, -⟩
  have h₃ : c₃.Stands cs none := by
    refine h₂.reaches hr₃ ?_
    rw [List.flatMap_assoc]
    exact Scan.steady_flatMap fun w _ => pipe_steady w
  have hl₃' : 2 ≤ c₃.looks := by omega
  refine (closingSlash_yields hk₃ h₃.toRegular hl₃' (failsUnless_isProper _)).bind_fails
    (closingSlash_explains h₃ hk₃ hend₃ (by omega)) ?_
  rintro _ _ ⟨-, c₄, hr₄, rfl, -⟩
  have hin₄ := h₃.toIn.reaches hr₄
  exact (quiet_flags.bind fun _ => quiet_sound _).explains ⟨hin₄.source, hin₄.placed⟩

theorem production_explains (production : Production) (h : c.Scans cs ⟨0, none, false⟩)
    (hreg : c.Regular) (hl : 2 ≤ c.looks) : Explains cs production.parser c := by
  cases production with
  | pattern =>
    refine Yields.map ((pattern_yields hreg hl (failsUnless_isProper _)).bind_fails
      (pattern_explains h hreg hl) ?_)
    rintro _ c₁ ⟨p, rfl, hr, -⟩
    exact (quiet_finish.bind fun _ => quiet_pure _).explains (h.toIn.reaches hr)
  | flags =>
    exact ((quiet_flags.bind fun _ => quiet_finish.bind fun _ => quiet_pure _).map _).explains
      h.toIn

end Parser

end RegexLiteral
