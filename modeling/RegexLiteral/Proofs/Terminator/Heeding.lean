import RegexLiteral.Proofs.RangeEnd
import RegexLiteral.Proofs.Terminator.Behind

/-!
# Every parser heeds line terminators

An error heeds line terminators if its range ends before the first of them, or if it is the one that
a run of them is refused with (`ParseError.Heeds`). A parser that fails at a lexeme has looked at it
before and knows what it is, and a parser that fails at something it has taken knows that no line
terminator was in it, since none is ever taken (`Clears`). So all parsers heed them. Only what
stands behind embedded flags is refused whatever it is (`flags_heeds`).
-/

namespace RegexLiteral

/-- The error ends before the first line terminator, or is about a run of them. Those right behind
embedded flags are called something else. -/
inductive ParseError.Heeds (t : Template) (e : ParseError) : Prop
  | clear (kind : e.kind ≠ .lexical) (clear : t.ClearUpTo e.span.stop)
  | terminator {l : Lexeme} (mem : l ∈ t.lexemes) (kind : l.kind = .garbage)
    (flags : ¬ t.FlagsBefore l.start) (eq : e = ⟨.lineTerminator, l.span, []⟩)
  | flags {l : Lexeme} (mem : l ∈ t.lexemes) (kind : l.kind = .garbage)
    (flags : t.FlagsBefore l.start) (eq : e = ⟨.mixedFlags, l.span, []⟩)

/-- If the failure is an error, then one that heeds line terminators. -/
abbrev Failure.Heeds (t : Template) : Failure → Prop := Failure.Reports (ParseError.Heeds t)

namespace Cursor

variable {t : Template} {c : Cursor}

/-- No flags have been put in up to the cursor. -/
def BeforeFlags (t : Template) (c : Cursor) : Prop :=
  ∃ used, c.Behind t used ∧ ∀ f, .node (.flags f) ∉ used

namespace BeforeFlags

theorem looked (h : c.BeforeFlags t) : c.looked.BeforeFlags t := by
  obtain ⟨used, h, hflags⟩ := h
  exact ⟨used, h.looked, hflags⟩

theorem clearUpTo_span (h : c.BeforeFlags t) (hk : c.kindAt 0 ≠ .garbage) :
    t.ClearUpTo c.span.stop := by
  obtain ⟨used, h, -⟩ := h
  exact h.clearUpTo_span hk

theorem heeds_terminator (h : c.BeforeFlags t) (hk : c.kindAt 0 = .garbage) :
    ParseError.Heeds t ⟨.lineTerminator, c.span, []⟩ := by
  obtain ⟨used, h, hflags⟩ := h
  obtain ⟨l, i, rest, hl, hkind, hspan, -⟩ := h.exists_run hk
  have hstart : l.start = extent used := by
    rw [← h.span_start, hspan]
    rfl
  rw [hspan]
  refine .terminator hl hkind ?_ rfl
  rw [hstart]
  exact h.not_flagsBefore hk hflags

theorem mayFail (h : c.BeforeFlags t) : c.MayFail (Failure.Heeds t) :=
  ⟨h.heeds_terminator, fun _ => trivial⟩

end BeforeFlags

/-- What stands behind embedded flags is refused, whatever it is. -/
theorem Behind.heeds_mixedFlags {used : List Item} {f : Flags}
    (h : c.Behind t (used ++ [.node (.flags f)])) :
    ParseError.Heeds t ⟨.mixedFlags, c.span, []⟩ := by
  by_cases hk : c.kindAt 0 = .garbage
  · obtain ⟨l, i, rest, hl, hkind, hspan, hc, hi, -⟩ := h.exists_run hk
    have hstart : l.start = extent used := by
      have hspan_start := h.span_start
      rw [hspan, extent_append] at hspan_start
      exact hspan_start
    rw [hspan]
    refine .flags hl hkind ⟨used, f, i, rest, ?_, hi, hstart⟩ rfl
    rw [h.items, hc, List.append_assoc]
    rfl
  · exact .clear nofun (h.clearUpTo_span hk)

end Cursor

namespace Parser

variable {α β : Type} {t : Template} {c : Cursor} {used : List Item}

/-! ## Steps that may run out of looks -/

section Steps

variable {E : ParseError → Prop} {post : β → Cursor → Prop}

theorem look_reports {n : Nat} {f : Kind → Parser β}
    (h : Yields (f (c.kindAt n)) c.looked post (Failure.Reports E)) :
    Yields (look n >>= f) c post (Failure.Reports E) := by
  rcases Nat.eq_zero_or_pos c.looks with hl | hl
  · have hstall : Yields (look n) c (fun _ _ => False) (Failure.Reports E) := look_stalls hl trivial
    exact hstall.bind fun _ _ h => h.elim
  · exact look_bind hl h

theorem isAt_reports {k : Kind} {f : Bool → Parser β}
    (h : Yields (f (c.kindAt 0 == k)) c.looked post (Failure.Reports E)) :
    Yields (isAt k >>= f) c post (Failure.Reports E) := by
  rw [isAt, bind_assoc]
  exact look_reports h

theorem isAtAny_reports {ks : KindSet} {f : Bool → Parser β}
    (h : Yields (f (ks.contains (c.kindAt 0))) c.looked post (Failure.Reports E)) :
    Yields (isAtAny ks >>= f) c post (Failure.Reports E) := by
  rw [isAtAny, bind_assoc]
  exact look_reports h

theorem expect_reports {k : Kind} {f : Unit → Parser β}
    (h : c.kindAt 0 = k → Yields (f ()) c.looked post (Failure.Reports E)) :
    Yields (expect k >>= f) c post (Failure.Reports E) := by
  rw [expect, bind_assoc]
  refine isAt_reports ?_
  split
  · rename_i hk
    exact h (eq_of_beq hk)
  · exact trivial

/-- Where a sigil begins there is no line terminator. -/
theorem isAtSigil_reports {f : Bool → Parser β}
    (ht : c.kindAt 0 ≠ .garbage → Yields (f true) c.looked post (Failure.Reports E))
    (hf : Yields (f false) c.looked post (Failure.Reports E)) :
    Yields (isAtSigil >>= f) c post (Failure.Reports E) := by
  rcases Nat.eq_zero_or_pos c.looks with hl | hl
  · have hstall : Yields isAtSigil c (fun _ _ => False) (Failure.Reports E) :=
      ((look_stalls hl trivial).bind fun _ _ h => h).bind fun _ _ h => h
    exact hstall.bind fun _ _ h => h.elim
  · refine isAtSigil_bind hl (fun hb => ht ?_) fun _ => hf
    obtain ⟨a, ha, rest, hc⟩ := hb.head
    rw [Cursor.kindAt_zero hc]
    revert a
    simp [Written.signs, Item.kind, Kind.ofChar]

theorem range_reports {start stop : Nat} {f : Span → Parser β}
    (h : Yields (f ⟨start, stop⟩) c post (Failure.Reports E)) :
    Yields (range start stop >>= f) c post (Failure.Reports E) := by
  unfold range
  split
  · exact h
  · exact trivial

theorem slice_reports {span : Span} {f : String → Parser β}
    (h : ∀ text, Yields (f text) c post (Failure.Reports E)) :
    Yields (slice span >>= f) c post (Failure.Reports E) := by
  unfold slice
  rw [bind_assoc]
  refine get_bind ?_
  split
  · exact trivial
  · exact h _

theorem sound_reports {r : Except InvalidNode β} (h : ∀ b, post b c) :
    Yields (sound r) c post (Failure.Reports E) := by
  unfold sound
  split
  · exact h _
  · exact trivial

theorem consume_reports {post : Lexeme → Cursor → Prop}
    (h : 0 < c.looks → c.items ≠ [] → Yields consume c post (Failure.Reports E)) :
    Yields consume c post (Failure.Reports E) := by
  by_cases hc : c.items = []
  · unfold Yields
    rw [consume_nil (Cursor.items_eq_nil_iff.1 hc)]
    trivial
  rcases Nat.eq_zero_or_pos c.looks with hl | hl
  · exact consume_stalls hl
  · exact h hl hc

/-- What a step keeps, a repetition keeps, and nothing else is asked of the step. -/
theorem collect_reports {step : Parser (Option α)} {I : Cursor → Prop}
    {P : Cursor → List α → Cursor → Prop}
    (hstep : ∀ c, I c → Yields step c (fun r c' =>
      match r with
      | none => P c [] c'
      | some a => I c' ∧ ∀ as c'', P c' as c'' → P c (a :: as) c'') (Failure.Reports E))
    (hc : I c) : Yields (collect step) c (P c) (Failure.Reports E) := by
  have hwithin : ∀ (n : Nat) (c : Cursor), I c →
      Yields (collectWithin step n) c (P c) (Failure.Reports E) := by
    intro n
    induction n with
    | zero => exact fun _ _ => trivial
    | succ n ih =>
      intro c hc
      refine (hstep c hc).bind ?_
      rintro (_ | a) c' h
      · exact yields_pure h
      · exact (ih c' h.1).bind fun as c'' has => yields_pure (h.2 as c'' has)
  exact get_bind (hwithin _ c hc)

end Steps

/-- The parser heeds line terminators wherever it starts, as long as no flags are before it. -/
def Heeds (t : Template) (p : Parser α) : Prop :=
  ∀ c : Cursor, c.BeforeFlags t → Yields p c (fun _ c' => c'.BeforeFlags t) (Failure.Heeds t)

/-- The parser also takes the lexeme that it starts at, which is then no line terminator. -/
def Clears (t : Template) (p : Parser α) : Prop :=
  ∀ c : Cursor, c.BeforeFlags t → Yields p c
    (fun _ c' => c'.BeforeFlags t ∧ t.ClearUpTo c.span.stop) (Failure.Heeds t)

section Rules

variable {p : Parser α} {f : α → Parser β}

theorem Clears.heeds (h : Clears t p) : Heeds t p := fun c hc => (h c hc).mono fun _ _ h => h.1

theorem Heeds.bind (hp : Heeds t p) (hf : ∀ a, Heeds t (f a)) : Heeds t (p >>= f) :=
  fun c hc => (hp c hc).bind fun a c' hc' => hf a c' hc'

theorem Heeds.map (hp : Heeds t p) (g : α → β) : Heeds t (g <$> p) :=
  fun c hc => Yields.map (hp c hc)

theorem Clears.bind (hp : Clears t p) (hf : ∀ a, Heeds t (f a)) : Clears t (p >>= f) :=
  fun c hc => (hp c hc).bind fun a c' hpost =>
    (hf a c' hpost.1).mono fun _ _ h => ⟨h, hpost.2⟩

theorem Clears.map (hp : Clears t p) (g : α → β) : Clears t (g <$> p) :=
  fun c hc => Yields.map (hp c hc)

theorem heeds_pure (a : α) : Heeds t (pure a : Parser α) := fun _ hc => hc

theorem heeds_sound (r : Except InvalidNode α) : Heeds t (sound r) :=
  fun _ hc => sound_reports fun _ => hc

theorem heeds_look (n : Nat) : Heeds t (look n) := by
  intro c hc
  rw [← bind_pure (look n)]
  exact look_reports (yields_pure hc.looked)

theorem heeds_isAt (k : Kind) : Heeds t (isAt k) := (heeds_look 0).bind fun _ => heeds_pure _

theorem heeds_expect (k : Kind) : Heeds t (expect k) := by
  intro c hc
  rw [← bind_pure (expect k)]
  exact expect_reports fun _ => yields_pure hc.looked

theorem heeds_delimiters (g : Cursor → List OpenDelimiter) :
    Heeds t (modify fun c => { c with delimiters := g c } : Parser PUnit) := by
  rintro c ⟨used, h, hflags⟩
  exact ⟨used, h.congr rfl rfl rfl, hflags⟩

theorem Heeds.collect {step : Parser (Option α)} (h : Heeds t step) : Heeds t (collect step) := by
  intro c hc
  refine collect_reports (I := Cursor.BeforeFlags t) (P := fun _ _ c' => c'.BeforeFlags t) ?_ hc
  intro c hc
  refine (h c hc).mono ?_
  rintro (_ | a) c' hc'
  · exact hc'
  · exact ⟨hc', fun _ _ h => h⟩

end Rules

/-! ## Failing where no line terminator has come up -/

section Failing

variable {post : α → Cursor → Prop} {cause : Cause}

theorem failAt_heeds {span : Span} (h : t.ClearUpTo span.stop) (hcause : cause.kind ≠ .lexical) :
    Yields (failAt span cause) c post (Failure.Heeds t) :=
  yields_failAt (.clear hcause h)

theorem fail_heeds (h : c.BeforeFlags t) (hk : c.kindAt 0 ≠ .garbage)
    (hcause : cause.kind ≠ .lexical) :
    Yields (fail cause) c post (Failure.Heeds t) :=
  yields_fail (.clear hcause (h.clearUpTo_span hk))

theorem failBecause_heeds {related : List Related} (h : c.BeforeFlags t)
    (hk : c.kindAt 0 ≠ .garbage) (hcause : cause.kind ≠ .lexical) :
    Yields (failBecause cause related) c post (Failure.Heeds t) :=
  yields_failBecause (.clear hcause (h.clearUpTo_span hk))

theorem failUnclosed_heeds {remark : Remark} (h : c.BeforeFlags t)
    (hk : c.kindAt 0 ≠ .garbage) (hcause : cause.kind ≠ .lexical) :
    Yields (failUnclosed cause remark) c post (Failure.Heeds t) := by
  refine get_bind ?_
  split
  · exact failBecause_heeds h hk hcause
  · split
    · exact failBecause_heeds h hk hcause
    · exact trivial

end Failing

/-! ## Taking lexemes -/

theorem consume_heeds (h : c.BeforeFlags t) (hk : c.kindAt 0 ≠ .interpolation) :
    Yields consume c (fun l c' => c'.BeforeFlags t ∧ t.ClearUpTo c.span.stop
      ∧ c.lexemes = l :: c'.lexemes) (Failure.Heeds t) := by
  refine consume_reports fun hl hne => ?_
  obtain ⟨i, rest, hc⟩ := List.exists_cons_of_ne_nil hne
  rw [Cursor.kindAt_zero hc] at hk
  refine (consume_yields hc hk hl h.mayFail).mono ?_
  rintro l c' ⟨⟨a, rfl, -⟩, hlexemes, hr, -⟩
  have hclear : t.ClearUpTo c.span.stop := by
    refine h.clearUpTo_span ?_
    rw [Cursor.kindAt_zero hc]
    exact hr.clean _ (by simp)
  obtain ⟨used, h, hflags⟩ := h
  exact ⟨⟨used ++ [.char a], h.reaches hr, by simp [hflags]⟩, hclear, hlexemes⟩

theorem clears_token (category : Category) : Clears t (token category) := by
  intro c h
  by_cases hk : c.kindAt 0 = .interpolation
  · -- A cut has no text, and a token must have some.
    obtain ⟨l, ls, hl, hkind⟩ := exists_lexeme_of_kindAt hk nofun
    refine (consume_reports fun hlooks _ => consume_lexeme hl hlooks h.mayFail).bind ?_
    rintro _ c' ⟨rfl, -⟩
    rw [Lexeme.eq_of_kind_interpolation hkind]
    exact trivial
  · refine (consume_heeds h hk).bind ?_
    rintro l c' ⟨h', hclear, -⟩
    exact sound_reports fun _ => ⟨h', hclear⟩

theorem clears_literal : Clears t literal := (clears_token _).bind fun _ => heeds_sound _

/-! ## Escapes -/

theorem clears_escapeCode : Clears t escapeCode := by
  intro c h
  refine expect_reports fun hk => get_bind ((consume_heeds h.looked (by simp [hk])).bind ?_)
  rintro _ c₁ ⟨h₁, hclear, -⟩
  refine isAt_reports ?_
  split
  · rename_i hcut
    exact fail_heeds h₁.looked (by simp [eq_of_beq hcut]) nofun
  rename_i hcut
  refine isAt_reports ?_
  split
  · rename_i hterm
    exact yields_fail (h₁.looked.looked.heeds_terminator (eq_of_beq hterm))
  rename_i hterm
  refine get_bind ?_
  split
  · exact failBecause_heeds h₁.looked.looked (by simpa using hterm) nofun
  · refine (consume_heeds h₁.looked.looked (by simpa using hcut)).bind ?_
    rintro _ c₂ ⟨h₂, -⟩
    exact yields_pure ⟨h₂, hclear⟩

theorem heeds_escapeTokens (code : Char) : Heeds t (escapeTokens code) :=
  (heeds_sound _).bind fun _ => (heeds_sound _).bind fun _ => heeds_pure _

theorem heeds_wordSet (code : Char) : Heeds t (wordSet code) :=
  (heeds_escapeTokens code).bind fun _ => heeds_sound _

theorem heeds_escapedCharacter (code : Char) : Heeds t (escapedCharacter code) :=
  (heeds_escapeTokens code).bind fun _ => (heeds_sound _).bind fun _ => heeds_pure _

theorem clears_escape : Clears t escape := by
  refine clears_escapeCode.bind fun code => ?_
  split
  · exact (heeds_wordSet code).bind fun _ => heeds_pure _
  split
  · exact ((heeds_escapeTokens code).bind fun _ => heeds_sound _).bind fun _ => heeds_pure _
  · exact (heeds_escapedCharacter code).bind fun _ => heeds_pure _

theorem clears_classEscape : Clears t classEscape := by
  refine clears_escapeCode.bind fun code => ?_
  split
  · exact (heeds_wordSet code).bind fun _ => heeds_pure _
  · exact (heeds_escapedCharacter code).bind fun _ => heeds_pure _

/-! ## Putting in nodes -/

theorem substitution_heeds (h : c.Behind t used) : Yields substitution c
    (fun n c' => c'.Behind t (used ++ [.node n]) ∧ t.ClearUpTo c.span.stop) (Failure.Heeds t) := by
  refine expect_reports fun hk => get_bind ?_
  have hclear : t.ClearUpTo c.span.stop := h.clearUpTo_span (by simp [hk])
  rw [Cursor.substitutions_looked]
  split
  · exact yields_fail (.clear nofun hclear)
  · rename_i n ns hns
    obtain ⟨l, ls, hl, hkind⟩ := exists_lexeme_of_kindAt hk nofun
    have hm : c.looked.MayFail (Failure.Heeds t) :=
      ⟨fun hg => absurd (hk.symm.trans hg) nofun, fun _ => trivial⟩
    refine (consume_reports fun hlooks _ => consume_lexeme (c := c.looked) hl hlooks hm).bind ?_
    rintro _ _ ⟨-, -, fuel, hfuel, rfl⟩
    have hitems : c.items = .node n :: itemsOf ls ns := by
      rw [Cursor.items, hl, hns, Lexeme.eq_of_kind_interpolation hkind]
      rfl
    refine modify_bind (yields_pure ⟨h.reaches ?_, hclear⟩)
    exact ⟨⟨[l], hl, rfl⟩, hitems, by simp [Item.kind], hns, hfuel, rfl, rfl, rfl⟩

theorem splice_heeds {family? : Node → Option α} {cause : NodeType → Cause}
    (hcause : ∀ type, (cause type).kind ≠ .lexical) (h : c.Behind t used) :
    Yields (splice family? cause) c (fun a c' => ∃ n, family? n = some a
      ∧ c'.Behind t (used ++ [.node n]) ∧ t.ClearUpTo c.span.stop) (Failure.Heeds t) := by
  refine get_bind ((substitution_heeds h).bind ?_)
  rintro n c' ⟨h', hclear⟩
  split
  · rename_i a ha
    exact yields_pure ⟨n, ha, h', hclear⟩
  · exact failAt_heeds hclear (hcause _)

theorem clears_splice {family? : Node → Option α} {cause : NodeType → Cause}
    (hcause : ∀ type, (cause type).kind ≠ .lexical) (hfamily : ∀ f, family? (.flags f) = none) :
    Clears t (splice family? cause) := by
  rintro c ⟨used, h, hflags⟩
  refine (splice_heeds hcause h).mono ?_
  rintro a c' ⟨n, ha, h', hclear⟩
  refine ⟨⟨used ++ [.node n], h', fun f hf => ?_⟩, hclear⟩
  rcases List.mem_append.1 hf with hf | hf
  · exact hflags f hf
  · obtain rfl := Item.node.inj (List.mem_singleton.1 hf)
    rw [hfamily] at ha
    cases ha

/-! ## Classes -/

theorem clears_classAtom : Clears t classAtom := by
  intro c h
  refine look_reports ?_
  split
  · exact clears_classEscape _ h.looked
  · exact clears_splice (fun _ => by nofun) (fun _ => rfl) _ h.looked
  · exact clears_literal.map _ _ h.looked

theorem heeds_rangeEnd : Heeds t rangeEnd := by
  intro c h
  refine get_bind ((clears_classAtom c h).bind ?_)
  rintro e c' ⟨h', hclear⟩
  split
  · exact yields_pure h'
  · exact failAt_heeds hclear nofun

theorem heeds_isAtRange : Heeds t isAtRange := by
  have hfollows : Heeds t rangeEndFollows := by
    intro c h
    refine look_reports ?_
    split
    any_goals exact yields_pure h.looked
    all_goals exact get_bind (yields_pure h.looked)
  refine (heeds_isAt _).bind fun b => ?_
  split
  · exact hfollows
  · exact heeds_pure _

theorem heeds_classElement : Heeds t classElement := by
  refine clears_classAtom.heeds.bind fun e => ?_
  split
  · refine heeds_isAtRange.bind fun b => ?_
    split
    · exact (clears_token _).heeds.bind fun _ => heeds_rangeEnd.bind fun _ =>
        (heeds_sound _).bind fun _ => heeds_pure _
    · exact heeds_pure _
  · exact heeds_pure _

theorem heeds_nextClassElement : Heeds t nextClassElement := by
  intro c h
  refine look_reports ?_
  split
  · exact yields_pure h.looked
  · rename_i hk
    exact failUnclosed_heeds h.looked (by simp [hk]) nofun
  · exact heeds_classElement.map _ _ h.looked

theorem heeds_characterClass : Heeds t characterClass := by
  have hnegation : Heeds t negation := by
    refine (heeds_isAt _).bind fun b => ?_
    split
    · exact (clears_token _).heeds.map _
    · exact heeds_pure _
  have hbody : Heeds t classBody := hnegation.bind fun _ =>
    heeds_nextClassElement.collect.bind fun _ => heeds_pure _
  exact (heeds_expect _).bind fun _ => (heeds_delimiters _).bind fun _ =>
    (clears_token _).heeds.bind fun _ => hbody.bind fun _ => (clears_token _).heeds.bind fun _ =>
    (heeds_delimiters _).bind fun _ => heeds_sound _

/-! ## Sigils -/

theorem digits_heed (h : c.BeforeFlags t) : Yields (collect digit) c
    (fun ls c' => c'.BeforeFlags t ∧ c.lexemes = ls ++ c'.lexemes) (Failure.Heeds t) := by
  refine collect_reports (I := Cursor.BeforeFlags t)
    (P := fun c ls c' => c'.BeforeFlags t ∧ c.lexemes = ls ++ c'.lexemes) (fun c h => ?_) h
  refine isAt_reports ?_
  split
  · rename_i hk
    refine Yields.map ((consume_heeds h.looked (by simp [eq_of_beq hk])).mono ?_)
    rintro l c' ⟨h', -, hl⟩
    rw [Cursor.lexemes_looked] at hl
    refine ⟨h', fun ls c'' hpost => ⟨hpost.1, ?_⟩⟩
    rw [hl, hpost.2]
    rfl
  · exact yields_pure ⟨h.looked, rfl⟩

/-- The digits of a number have been taken, so no line terminator is among them. -/
theorem heeds_number : Heeds t number := by
  intro c h
  refine get_bind ((digits_heed h).bind ?_)
  rintro ls c₁ ⟨h₁, hlexemes⟩
  have hclear : t.ClearUpTo (Lexeme.stopOf c.span.start ls) := by
    obtain ⟨used, h, -⟩ := h
    obtain ⟨used₁, h₁, -⟩ := h₁
    rw [h.stopOf_eq h₁ hlexemes]
    exact h₁.clearUpTo
  refine range_reports (slice_reports fun text => ?_)
  split
  · exact failAt_heeds hclear nofun
  · exact (heeds_sound _).bind (fun _ => heeds_pure _) c₁ h₁

theorem heeds_upperBound (n : Nat) : Heeds t (upperBound n) := by
  refine (heeds_isAt _).bind fun b => ?_
  split
  · refine (clears_token _).heeds.bind fun _ => (heeds_isAt _).bind fun b => ?_
    split
    · exact heeds_number.bind fun _ => heeds_pure _
    · exact heeds_pure _
  · exact heeds_pure _

/-- The closing brace has been taken before the numbers are compared, and the range ends with it. -/
theorem heeds_braces : Heeds t braces := by
  intro c h
  refine get_bind (((clears_token _).heeds c h).bind fun _ c₁ h₁ => ?_)
  refine (heeds_number c₁ h₁).bind fun n c₂ h₂ => ?_
  refine (heeds_upperBound n.2 c₂ h₂).bind fun upper c₃ h₃ => get_bind ?_
  refine (clears_token _ c₃ h₃).bind ?_
  rintro _ c₄ ⟨h₄, hclear⟩
  split
  · exact (heeds_sound _).bind (fun _ => heeds_pure _) c₄ h₄
  · exact range_reports (failAt_heeds hclear nofun)

theorem sigil_heeds (h : c.BeforeFlags t) (hk : c.kindAt 0 ≠ .garbage) :
    Yields sigil c (fun _ c' => c'.BeforeFlags t) (Failure.Heeds t) := by
  refine isAt_reports ?_
  split
  · exact heeds_braces _ h.looked
  have hbounds : Yields signBounds c.looked
      (fun _ c' => c'.BeforeFlags t ∧ c'.kindAt 0 ≠ .garbage) (Failure.Heeds t) := by
    refine isAtAny_reports ?_
    split
    · exact get_bind (yields_pure ⟨h.looked.looked, hk⟩)
    · exact yields_pure ⟨h.looked.looked, hk⟩
  refine hbounds.bind ?_
  rintro r c' ⟨h', hk'⟩
  split
  · exact fail_heeds h' hk' nofun
  · exact (clears_token _).heeds.bind (fun _ => heeds_pure _) c' h'

/-! ## Elements -/

theorem heeds_repeated (e : Element) : Heeds t (repeated e) := by
  intro c h
  refine isAtSigil_reports (fun hk => ?_) (yields_pure h.looked)
  rw [if_pos rfl]
  split
  · exact fail_heeds h.looked hk nofun
  refine (sigil_heeds h.looked hk).bind fun s c₁ h₁ => isAt_reports ?_
  split
  · rename_i hquestion
    exact fail_heeds h₁.looked (by simp [eq_of_beq hquestion]) nofun
  refine isAtSigil_reports (fun hk₁ => fail_heeds h₁.looked.looked hk₁ nofun) ?_
  exact (heeds_sound _).bind (fun _ => heeds_pure _) _ h₁.looked.looked

theorem heeds_element : Heeds t element := by
  refine (heeds_look 0).bind fun k => ?_
  split
  · exact heeds_characterClass.bind fun _ => heeds_pure _
  · exact clears_escape.heeds.bind fun _ => heeds_pure _
  · exact (clears_splice (fun _ => by nofun) fun _ => rfl).heeds
  · intro c h
    refine isAtSigil_reports (fun hk => fail_heeds h.looked hk nofun) ?_
    exact clears_literal.heeds.bind (fun _ => heeds_pure _) _ h.looked

/-! ## Literals -/

/-- An alternative ends where something else than a line terminator stands. -/
theorem alternative_heeds (h : c.BeforeFlags t) : Yields alternative c
    (fun _ c' => c'.BeforeFlags t ∧ c'.kindAt 0 ≠ .garbage) (Failure.Heeds t) := by
  refine (collect_reports (I := Cursor.BeforeFlags t)
    (P := fun _ _ c' => c'.BeforeFlags t ∧ c'.kindAt 0 ≠ .garbage) (fun c h => ?_) h).bind
      fun _ _ hpost => yields_pure hpost
  refine isAtAny_reports ?_
  split
  · rename_i hend
    refine yields_pure ⟨h.looked, fun hk => ?_⟩
    rw [show c.kindAt 0 = .garbage from hk] at hend
    exact absurd hend (by decide)
  · refine (heeds_element _ h.looked).bind fun e c₁ h₁ => Yields.map ?_
    exact (heeds_repeated e c₁ h₁).mono fun _ _ h₂ => ⟨h₂, fun _ _ hpost => hpost⟩

theorem alternatives_heed (h : c.BeforeFlags t) (hk : c.kindAt 0 ≠ .garbage) :
    Yields (collect nextAlternative) c (fun _ c' => c'.BeforeFlags t ∧ c'.kindAt 0 ≠ .garbage)
      (Failure.Heeds t) := by
  refine collect_reports (I := fun c => c.BeforeFlags t ∧ c.kindAt 0 ≠ .garbage)
    (P := fun _ _ c' => c'.BeforeFlags t ∧ c'.kindAt 0 ≠ .garbage) ?_ ⟨h, hk⟩
  rintro c ⟨h, hk⟩
  refine isAt_reports ?_
  split
  · refine ((clears_token _).heeds _ h.looked).bind fun _ c₁ h₁ => ?_
    exact (alternative_heeds h₁).bind fun _ _ hpost => yields_pure ⟨hpost, fun _ _ h => h⟩
  · exact yields_pure ⟨h.looked, hk⟩

theorem heeds_openingSlash : Heeds t openingSlash := by
  intro c h
  refine look_reports ?_
  split
  · exact (heeds_delimiters _).bind (fun _ => (clears_token _).heeds) _ h.looked
  · rename_i hk
    exact fail_heeds h.looked (by simp [hk]) nofun
  · rename_i hk
    exact yields_fail (h.looked.heeds_terminator hk)
  · rename_i hterm
    exact fail_heeds h.looked hterm nofun

theorem closingSlash_heeds (h : c.BeforeFlags t) (hk : c.kindAt 0 ≠ .garbage) :
    Yields closingSlash c (fun _ c' => c'.BeforeFlags t) (Failure.Heeds t) := by
  refine isAt_reports ?_
  split
  · exact (clears_token _).heeds.bind
      (fun _ => (heeds_delimiters _).bind fun _ => heeds_pure _) _ h.looked
  · exact failUnclosed_heeds h.looked hk nofun

theorem heeds_flagTokens : ∀ (n : Nat) (seen : FlagSet), Heeds t (flagTokens n seen)
  | 0, _ => fun _ _ => trivial
  | n + 1, seen => by
    intro c h
    refine look_reports ?_
    split
    · exact yields_pure h.looked
    · rename_i hk
      exact fail_heeds h.looked (by simp [hk]) nofun
    · rename_i hk
      exact yields_fail (h.looked.heeds_terminator hk)
    · rename_i hterm
      refine get_bind ?_
      split
      · exact fail_heeds h.looked hterm nofun
      split
      · exact fail_heeds h.looked hterm nofun
      · exact (clears_token _).heeds.bind
          (fun _ => (heeds_flagTokens n _).bind fun _ => heeds_pure _) _ h.looked

theorem flags_heeds (h : c.BeforeFlags t) : Yields flags c (fun _ c' => ∃ used, c'.Behind t used)
    (Failure.Heeds t) := by
  refine isAt_reports ?_
  split
  · obtain ⟨used, h, -⟩ := h
    refine (splice_heeds (fun _ => by nofun) h.looked).bind ?_
    rintro f c₁ ⟨n, hn, h₁, -⟩
    obtain rfl : n = .flags f := by
      cases n <;> simp_all [Node.flags?]
    refine isAt_reports ?_
    split
    · exact yields_pure ⟨_, h₁.looked⟩
    · exact yields_fail h₁.looked.heeds_mixedFlags
  · refine get_bind (((heeds_flagTokens _ _).bind fun _ => heeds_sound _) _ h.looked |>.mono ?_)
    rintro _ _ ⟨used, h, -⟩
    exact ⟨used, h⟩

theorem pattern_heeds (h : c.BeforeFlags t) : Yields pattern c
    (fun _ c' => ∃ used, c'.Behind t used) (Failure.Heeds t) := by
  refine (heeds_openingSlash c h).bind fun _ c₁ h₁ => (alternative_heeds h₁).bind ?_
  rintro _ c₂ ⟨h₂, hk₂⟩
  refine (alternatives_heed h₂ hk₂).bind ?_
  rintro _ c₃ ⟨h₃, hk₃⟩
  exact (closingSlash_heeds h₃ hk₃).bind fun _ c₄ h₄ => (flags_heeds h₄).bind fun _ _ h₅ =>
    sound_reports fun _ => h₅

theorem finish_heeds (h : c.Behind t used) :
    Yields finish c (fun _ _ => True) (Failure.Heeds t) := by
  refine expect_reports fun hk => get_bind ?_
  split
  · exact yields_pure trivial
  · have hspan : c.span = .empty c.stop := by
      rw [Cursor.span, Cursor.items_eq_nil_iff.1 (Cursor.kindAt_eq_eof hk)]
    have hclear := h.clearUpTo_span (by simp [hk])
    rw [hspan] at hclear
    exact failAt_heeds hclear (by simp [Cause.kind])

theorem production_heeds (production : Production) (h : c.BeforeFlags t) :
    Yields production.parser c (fun _ _ => True) (Failure.Heeds t) := by
  cases production with
  | pattern =>
    refine Yields.map ((pattern_heeds h).bind ?_)
    rintro _ c₁ ⟨used, h₁⟩
    exact (finish_heeds h₁).bind fun _ _ _ => yields_pure trivial
  | flags =>
    refine Yields.map ((flags_heeds h).bind ?_)
    rintro _ c₁ ⟨used, h₁⟩
    exact (finish_heeds h₁).bind fun _ _ _ => yields_pure trivial

end Parser

/-- Whatever a template is read as, its errors heed line terminators. -/
theorem Template.parse_heeds {t : Template} {production : Production} {fuel : Option Nat}
    {e : ParseError} (h : t.parse production fuel = .error (.error e)) : e.Heeds t := by
  have hstart : (t.cursor fuel).BeforeFlags t := ⟨[], Cursor.behind_cursor t fuel, by simp⟩
  rcases run_of_yields (Parser.production_heeds production hstart)
    with ⟨n, c, hn, -⟩ | ⟨e', he', hheeds⟩
  · cases h.symm.trans hn
  · cases h.symm.trans he'
    exact hheeds

end RegexLiteral
