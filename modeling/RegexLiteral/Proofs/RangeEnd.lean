import RegexLiteral.Proofs.Derivation
import RegexLiteral.Proofs.Failing.Stop
import RegexLiteral.Proofs.Location.Quiet

/-!
# Ranges end in a character

There is an error for a range that ends in something else, but no run ends with it. A parser spares
that error if none of its errors has it as its cause (`Spares`). Sequences and repetitions of steps
that spare it do so too, and the only parser that names it runs behind a lookahead that has seen the
end of the range (`spares_rangeFrom`).
-/

namespace RegexLiteral

def Cause.isRangeEnd : Cause → Bool
  | notARangeEnd _ => true
  | _ => false

/-- A failure with any other cause than that a range ends in no character. -/
def Failure.Spared : Failure → Prop := Failure.Reports fun e => e.cause.isRangeEnd = false

namespace Parser

open Written

variable {α β : Type}

def Spares (p : Parser α) : Prop := ∀ c, Yields p c (fun _ _ => True) Failure.Spared

section Rules

variable {p : Parser α} {f : α → Parser β}

theorem Spares.bind (hp : Spares p) (hf : ∀ a, Spares (f a)) : Spares (p >>= f) :=
  fun c => (hp c).bind fun a c' _ => hf a c'

theorem Spares.map (hp : Spares p) (g : α → β) : Spares (g <$> p) := fun c => Yields.map (hp c)

theorem spares_pure (a : α) : Spares (pure a) := fun _ => trivial

theorem spares_fault (x : Fault) : Spares (fault x : Parser α) := fun _ => trivial

theorem spares_get {f : Cursor → Parser β} (hf : ∀ c, Spares (f c)) : Spares (get >>= f) :=
  fun c => get_bind (hf c c)

theorem spares_modify (g : Cursor → Cursor) : Spares (modify g : Parser PUnit) := fun _ => trivial

theorem spares_failAt {cause : Cause} (h : cause.isRangeEnd = false) (span : Span) :
    Spares (failAt span cause : Parser α) := fun _ => h

theorem spares_fail {cause : Cause} (h : cause.isRangeEnd = false) :
    Spares (fail cause : Parser α) := spares_get fun _ => spares_failAt h _

theorem spares_failBecause {cause : Cause} (h : cause.isRangeEnd = false)
    (related : List Related) : Spares (failBecause cause related : Parser α) :=
  spares_get fun _ _ => h

theorem spares_failUnclosed {cause : Cause} (h : cause.isRangeEnd = false)
    (remark : Remark) : Spares (failUnclosed cause remark : Parser α) := by
  refine spares_get fun c => ?_
  split
  · exact spares_failBecause h _
  · split
    · exact spares_failBecause h _
    · exact spares_fault _

theorem spares_range (start stop : Nat) : Spares (range start stop) := by
  unfold range
  split
  · exact spares_pure _
  · exact spares_fault _

theorem spares_slice (span : Span) : Spares (slice span) := by
  refine spares_get fun c => ?_
  split
  · exact spares_fault _
  · exact spares_pure _

theorem spares_look (n : Nat) : Spares (look n) :=
  fun _ => (look_moves n trivial).mono fun _ _ _ => trivial

theorem spares_isAt (k : Kind) : Spares (isAt k) := (spares_look 0).bind fun _ => spares_pure _

theorem spares_isAtAny (ks : KindSet) : Spares (isAtAny ks) :=
  (spares_look 0).bind fun _ => spares_pure _

theorem spares_expect (k : Kind) : Spares (expect k) := by
  refine (spares_isAt k).bind fun b => ?_
  split
  · exact spares_pure _
  · exact spares_fault _

theorem spares_consume : Spares consume := by
  refine spares_get fun c => ?_
  split
  · exact spares_fault _
  refine (spares_isAt _).bind fun b => ?_
  split
  · exact spares_fail rfl
  · exact (spares_modify _).bind fun _ => Spares.bind
      (fun c => (spendFuel_yields fun _ => trivial).mono fun _ _ _ => trivial)
      fun _ => (spares_modify _).bind fun _ => spares_pure _

theorem spares_sound (r : Except InvalidNode α) : Spares (sound r) := by
  unfold sound
  split
  · exact spares_pure _
  · exact spares_fault _

theorem spares_token (category : Category) : Spares (token category) :=
  spares_consume.bind fun _ => spares_sound _

theorem spares_substitution : Spares substitution := by
  refine (spares_expect _).bind fun _ => spares_get fun c => ?_
  split
  · exact spares_fail rfl
  · exact spares_consume.bind fun _ => (spares_modify _).bind fun _ => spares_pure _

theorem Spares.collect {step : Parser (Option α)} (h : Spares step) : Spares (collect step) := by
  have hwithin : ∀ n, Spares (collectWithin step n) := by
    intro n
    induction n with
    | zero => exact spares_fault _
    | succ n ih =>
      refine h.bind fun r => ?_
      split
      · exact spares_pure _
      · exact ih.bind fun _ => spares_pure _
  exact spares_get fun _ => hwithin _

end Rules

/-! ## Atoms -/

theorem spares_literal : Spares literal := (spares_token _).bind fun _ => spares_sound _

theorem spares_escapeCode : Spares escapeCode := by
  refine (spares_expect _).bind fun _ => spares_get fun c => spares_consume.bind fun _ =>
    (spares_isAt _).bind fun b => ?_
  split
  · exact spares_fail rfl
  refine (spares_isAt _).bind fun b => ?_
  split
  · exact spares_fail rfl
  refine spares_get fun c => ?_
  split
  · exact spares_failBecause rfl _
  · exact spares_consume.bind fun _ => spares_pure _

theorem spares_escapeTokens (code : Char) : Spares (escapeTokens code) :=
  (spares_sound _).bind fun _ => (spares_sound _).bind fun _ => spares_pure _

theorem spares_escapedCharacter (code : Char) : Spares (escapedCharacter code) :=
  (spares_escapeTokens code).bind fun _ => (spares_sound _).bind fun _ => spares_pure _

theorem spares_escape : Spares escape := by
  refine spares_escapeCode.bind fun code => ?_
  split
  · exact ((spares_escapeTokens code).bind fun _ => spares_sound _).bind fun _ => spares_pure _
  split
  · exact ((spares_escapeTokens code).bind fun _ => spares_sound _).bind fun _ => spares_pure _
  · exact (spares_escapedCharacter code).bind fun _ => spares_pure _

theorem spares_classEscape : Spares classEscape := by
  refine spares_escapeCode.bind fun code => ?_
  split
  · exact ((spares_escapeTokens code).bind fun _ => spares_sound _).bind fun _ => spares_pure _
  · exact (spares_escapedCharacter code).bind fun _ => spares_pure _

theorem spares_splice (family? : Node → Option α) {cause : NodeType → Cause}
    (h : ∀ type, (cause type).isRangeEnd = false) : Spares (splice family? cause) := by
  refine spares_get fun c => spares_substitution.bind fun n => ?_
  split
  · exact spares_pure _
  · exact spares_failAt (h _) _

/-! ## Classes -/

theorem spares_classAtom : Spares classAtom := by
  refine (spares_look 0).bind fun k => ?_
  split
  · exact spares_classEscape
  · exact spares_splice _ fun _ => rfl
  · exact spares_literal.map _

theorem look_stalls {post : Kind → Cursor → Prop} {fails : Failure → Prop} {c : Cursor} {n : Nat}
    (hl : c.looks = 0) (hf : fails (.fault .stalled)) : Yields (look n) c post fails := by
  refine get_bind ?_
  rw [hl]
  exact hf

theorem consume_stalls {post : Lexeme → Cursor → Prop} {E : ParseError → Prop} {c : Cursor}
    (hl : c.looks = 0) : Yields consume c post (Failure.Reports E) := by
  refine get_bind ?_
  split
  · exact trivial
  · have hstall : Yields (isAt .garbage) c (fun _ _ => False) (Failure.Reports E) :=
      (look_stalls hl trivial).bind fun _ _ h => h
    exact hstall.bind fun _ _ h => h.elim

/-- What the lookahead finds out holds even if too few looks are left for it to end. -/
theorem isAtRange_tells (c : Cursor) : Yields isAtRange c
    (fun b c' => b = true → RangeAhead c.items ∧ c.Reaches [] c') Failure.Spared := by
  by_cases hl : 2 ≤ c.looks
  · refine (isAtRange_yields hl).mono ?_
    intro b c' h hb
    obtain ⟨hr, -, hahead, -⟩ := h
    exact ⟨hahead hb, hr⟩
  by_cases hzero : c.looks = 0
  · exact ((look_stalls hzero trivial).bind fun _ _ h => h).bind fun _ _ h => h
  refine isAt_bind (by omega) ?_
  split
  · have hnone : c.looked.looks = 0 := by
      rw [Cursor.looks_looked]
      omega
    have hstall : Yields (look 1) c.looked (fun _ _ => False) Failure.Spared :=
      look_stalls hnone trivial
    exact hstall.bind fun _ _ h => h.elim
  · exact yields_pure nofun

/-- The lookahead has seen that what is read next can end a range. -/
theorem rangeEnd_spares {c : Cursor} {i : Item} {rest : List Item} (hc : c.items = i :: rest)
    (hi : i ≠ .char ']') (ha : ∀ (m : ClassAtom) (x : List Item), i :: rest = m.items ++ x →
      m.character?.isSome) (hl : 3 ≤ c.looks) :
    Yields rangeEnd c (fun _ _ => True) Failure.Spared := by
  have hk : c.kindAt 0 = i.kind := Cursor.kindAt_zero hc
  have hclose : c.kindAt 0 ≠ .bracketClose := fun h =>
    hi (Item.eq_char_of_kind (hk.symm.trans h) rfl)
  have heof : c.kindAt 0 ≠ .eof := fun h => i.kind_ne_eof (hk.symm.trans h)
  have hread := (classAtom_yields hl hclose heof (failsUnless_isProper _)).and (spares_classAtom c)
  refine get_bind ((hread.imp fun _ h => h.2).bind ?_)
  intro _ c' hpost
  obtain ⟨a, rfl, hr, -⟩ := hpost
  have hsome := ha a c'.items (hc.symm.trans hr.items)
  unfold ClassAtom.character? at hsome
  split
  · exact yields_pure trivial
  · rename_i hne
    split at hsome
    · rename_i r hr'
      exact absurd hr' (hne r)
    · cases hsome

theorem spares_rangeFrom (min : Character) : Spares (rangeFrom min) := by
  intro c
  refine (isAtRange_tells c).bind ?_
  intro b c₁ hb
  split
  · rename_i htrue
    obtain ⟨⟨i, rest, hc, hi, hend⟩, hr₁⟩ := hb htrue
    have hc₁ : c₁.items = .char '-' :: i :: rest := hr₁.items_eq hc
    by_cases hl : 0 < c₁.looks
    · have hm : c₁.MayFail Failure.Spared := ⟨fun _ => rfl, fun _ => trivial⟩
      refine (token_char_yields .punctuator hc₁ hl hm).bind ?_
      intro _ c₂ hpost
      obtain ⟨-, hr₂, hl₂⟩ := hpost
      refine (rangeEnd_spares (hr₂.items_eq hc₁) hi hend (by omega)).bind ?_
      exact fun _ c₃ _ => (spares_sound _).bind (fun _ => spares_pure _) c₃
    · have hstalls : Yields (token .punctuator) c₁ (fun _ _ => False) Failure.Spared :=
        (consume_stalls (Nat.eq_zero_of_not_pos hl)).bind fun _ _ h => False.elim h
      exact hstalls.bind fun _ _ h => h.elim
  · exact yields_pure trivial

theorem spares_classElement : Spares classElement := by
  refine spares_classAtom.bind fun e => ?_
  split
  · exact spares_rangeFrom _
  · exact spares_pure _

theorem spares_nextClassElement : Spares nextClassElement := by
  refine (spares_look 0).bind fun k => ?_
  split
  · exact spares_pure _
  · exact spares_failUnclosed rfl _
  · exact spares_classElement.map _

theorem spares_characterClass : Spares characterClass := by
  have hnegation : Spares negation := by
    refine (spares_isAt _).bind fun b => ?_
    split
    · exact (spares_token _).map _
    · exact spares_pure _
  have hbody : Spares classBody :=
    hnegation.bind fun _ => spares_nextClassElement.collect.bind fun _ => spares_pure _
  exact (spares_expect _).bind fun _ => (spares_modify _).bind fun _ =>
    (spares_token _).bind fun _ => hbody.bind fun _ => (spares_token _).bind fun _ =>
    (spares_modify _).bind fun _ => spares_sound _

/-! ## Elements -/

theorem spares_isAtSigil : Spares isAtSigil := by
  refine (spares_isAtAny _).bind fun b => ?_
  split
  · exact spares_pure _
  · exact spares_get fun _ => spares_pure _

theorem spares_number : Spares number := by
  have hdigit : Spares digit := by
    refine (spares_isAt _).bind fun b => ?_
    split
    · exact spares_consume.map _
    · exact spares_pure _
  refine spares_get fun c => hdigit.collect.bind fun digits => (spares_range _ _).bind fun span =>
    (spares_slice span).bind fun text => ?_
  split
  · exact spares_failAt rfl _
  · exact (spares_sound _).bind fun _ => spares_pure _

theorem spares_upperBound (n : Nat) : Spares (upperBound n) := by
  refine (spares_isAt _).bind fun b => ?_
  split
  · refine (spares_token _).bind fun _ => (spares_isAt _).bind fun b => ?_
    split
    · exact spares_number.bind fun _ => spares_pure _
    · exact spares_pure _
  · exact spares_pure _

theorem spares_braces : Spares braces := by
  refine spares_get fun c => (spares_token _).bind fun _ => spares_number.bind fun n =>
    (spares_upperBound n.2).bind fun u => spares_get fun c' => (spares_token _).bind fun _ => ?_
  split
  · exact (spares_sound _).bind fun _ => spares_pure _
  · exact (spares_range _ _).bind fun _ => spares_failAt rfl _

theorem spares_sigil : Spares sigil := by
  have hsign : Spares signBounds := by
    refine (spares_isAtAny _).bind fun b => ?_
    split
    · exact spares_get fun _ => spares_pure _
    · exact spares_pure _
  refine (spares_isAt _).bind fun b => ?_
  split
  · exact spares_braces
  refine hsign.bind fun r => ?_
  split
  · exact spares_fail rfl
  · exact (spares_token _).bind fun _ => spares_pure _

theorem spares_repeated (e : Element) : Spares (repeated e) := by
  refine spares_isAtSigil.bind fun b => ?_
  split
  · split
    · exact spares_fail rfl
    · refine spares_sigil.bind fun s => (spares_isAt _).bind fun b => ?_
      split
      · exact spares_fail rfl
      refine spares_isAtSigil.bind fun b => ?_
      split
      · exact spares_fail rfl
      · exact (spares_sound _).bind fun _ => spares_pure _
  · exact spares_pure _

theorem spares_element : Spares element := by
  refine (spares_look 0).bind fun k => ?_
  split
  · exact spares_characterClass.bind fun _ => spares_pure _
  · exact spares_escape.bind fun _ => spares_pure _
  · exact spares_splice _ fun _ => rfl
  refine spares_isAtSigil.bind fun b => ?_
  split
  · exact spares_fail rfl
  · exact spares_literal.bind fun _ => spares_pure _

/-! ## Literals -/

theorem spares_alternative : Spares alternative := by
  have hnext : Spares nextElement := by
    refine (spares_isAtAny _).bind fun b => ?_
    split
    · exact spares_pure _
    · exact spares_element.bind fun e => (spares_repeated e).map _
  exact hnext.collect.bind fun _ => spares_pure _

theorem spares_nextAlternative : Spares nextAlternative := by
  refine (spares_isAt _).bind fun b => ?_
  split
  · exact (spares_token _).bind fun _ => spares_alternative.bind fun _ => spares_pure _
  · exact spares_pure _

theorem spares_flagTokens : ∀ (n : Nat) (seen : FlagSet), Spares (flagTokens n seen)
  | 0, _ => spares_fault _
  | n + 1, seen => by
    refine (spares_look 0).bind fun k => ?_
    split
    · exact spares_pure _
    · exact spares_fail rfl
    · exact spares_fail rfl
    refine spares_get fun c => ?_
    split
    · exact spares_fail rfl
    split
    · exact spares_fail rfl
    · exact (spares_token _).bind fun _ => (spares_flagTokens n _).bind fun _ => spares_pure _

theorem spares_flags : Spares flags := by
  refine (spares_isAt _).bind fun b => ?_
  split
  · refine (spares_splice _ fun _ => rfl).bind fun f => (spares_isAt _).bind fun b => ?_
    split
    · exact spares_pure _
    · exact spares_fail rfl
  · exact spares_get fun _ => (spares_flagTokens _ _).bind fun _ => spares_sound _

theorem spares_pattern : Spares pattern := by
  have hopening : Spares openingSlash := by
    refine (spares_look 0).bind fun k => ?_
    split
    · exact (spares_modify _).bind fun _ => spares_token _
    · exact spares_fail rfl
    · exact spares_fail rfl
    · exact spares_fail rfl
  have hclosing : Spares closingSlash := by
    refine (spares_isAt _).bind fun b => ?_
    split
    · exact (spares_token _).bind fun _ => (spares_modify _).bind fun _ => spares_pure _
    · exact spares_failUnclosed rfl _
  exact hopening.bind fun _ => spares_alternative.bind fun _ =>
    spares_nextAlternative.collect.bind fun _ => hclosing.bind fun _ => spares_flags.bind fun _ =>
    spares_sound _

theorem spares_finish : Spares finish := by
  refine (spares_expect _).bind fun _ => spares_get fun c => ?_
  split
  · exact spares_pure _
  · exact spares_failAt rfl _

theorem spares_production (production : Production) : Spares production.parser := by
  cases production with
  | pattern =>
    exact (spares_pattern.bind fun _ => spares_finish.bind fun _ => spares_pure _).map _
  | flags => exact (spares_flags.bind fun _ => spares_finish.bind fun _ => spares_pure _).map _

end Parser

/-- No template is refused because a range in it ends in something else than a character. -/
theorem Template.cause_ne_notARangeEnd {t : Template} {production : Production}
    {fuel : Option Nat} {e : ParseError} (h : t.parse production fuel = .error (.error e))
    (found : NodeType) : e.cause ≠ .notARangeEnd found := by
  rcases run_of_yields (Parser.spares_production production (t.cursor fuel))
    with ⟨n, c, hn, -⟩ | ⟨e', he', hspared⟩
  · cases h.symm.trans hn
  · cases h.symm.trans he'
    intro hcause
    rw [Failure.Spared, Failure.Reports, hcause] at hspared
    cases hspared

end RegexLiteral
