import RegexLiteral.Proofs.Failing.Stop
import RegexLiteral.Proofs.Location.Boundary

/-!
# Errors without a remark

Most parsers point only to one range of the source when they fail: the next lexeme, one that they
have begun with, or all that they have read. Such a parser is quiet. Sequences and repetitions of
quiet steps are quiet, so everything is that never looks at the open delimiters and reads no escape:
elements behind an atom (`quiet_repeated`), flags (`quiet_flags`) and the opening slash.
-/

namespace RegexLiteral

/-- If the failure is an error, then one with the property `E`. -/
def Failure.Reports (E : ParseError → Prop) : Failure → Prop
  | error e => E e
  | outOfFuel | fault _ => True

theorem Failure.Reports.mono {E E' : ParseError → Prop} (h : ∀ e, E e → E' e) :
    ∀ {f : Failure}, f.Reports E → f.Reports E'
  | .error e, he => h e he
  | .outOfFuel, _ | .fault _, _ => trivial

/-- The error points to a range of the source, and to no other. -/
structure ParseError.Bare (cs : List Char) (e : ParseError) : Prop where
  within : e.span.Within cs
  related : e.related = []

/-- The cursor stands in the source. -/
structure Cursor.In (c : Cursor) (cs : List Char) : Prop where
  source : c.source = cs
  placed : c.Placed

namespace Cursor

variable {c c' : Cursor} {cs : List Char} {l : Lexeme} {ls : List Lexeme} {used : List Item}

theorem Placed.within_span (h : c.Placed) : c.span.Within c.source := by
  obtain ⟨read, hs, ht⟩ := h
  cases hl : c.lexemes with
  | nil =>
    have hspan : c.span = .empty (byteSize c.source) := by rw [span, hl, stop]
    rw [hspan]
    exact Span.within_empty (isBoundary_byteSize _)
  | cons l ls =>
    rw [hl] at ht
    rw [hl, List.flatMap_cons, ← List.append_assoc] at hs
    have hspan : c.span = ⟨byteSize read, byteSize (read ++ l.chars)⟩ := by
      rw [span, hl, byteSize_append, ← ht.1]
      rfl
    rw [hs, hspan]
    exact Span.within_append _ _ _

theorem In.within_span (h : c.In cs) : c.span.Within cs := h.source ▸ h.placed.within_span

theorem Placed.tail (h : c.Placed) (hl : c.lexemes = l :: ls) :
    Placed { c with lexemes := ls } := by
  obtain ⟨read, hs, ht⟩ := h
  rw [hl] at hs ht
  refine ⟨read ++ l.chars, by simpa using hs, ?_⟩
  have := ht.2
  rwa [Lexeme.stop, ht.1, ← byteSize_append] at this

theorem In.reaches (h : c.In cs) (hr : c.Reaches used c') : c'.In cs :=
  ⟨hr.source.trans h.source, (h.placed.reaches hr).1⟩

end Cursor

namespace Parser

variable {α β : Type} {cs : List Char}

/-- The parser moves on in the source, and its errors are bare. -/
def Quiet (cs : List Char) (p : Parser α) : Prop :=
  ∀ c : Cursor, c.In cs → Yields p c (fun _ c' => c'.In cs)
    (Failure.Reports (ParseError.Bare cs))

/-! ## Steps -/

section Steps

variable {p : Parser α} {f : α → Parser β}

theorem Quiet.bind (hp : Quiet cs p) (hf : ∀ a, Quiet cs (f a)) : Quiet cs (p >>= f) :=
  fun c hc => (hp c hc).bind fun a c' hc' => hf a c' hc'

theorem Quiet.map (hp : Quiet cs p) (g : α → β) : Quiet cs (g <$> p) :=
  fun c hc => Yields.map (hp c hc)

theorem quiet_pure (a : α) : Quiet cs (pure a : Parser α) := fun _ hc => hc

theorem quiet_fault (x : Fault) : Quiet cs (fault x : Parser α) := fun _ _ => trivial

theorem quiet_get {f : Cursor → Parser β} (hf : ∀ c : Cursor, c.In cs → Quiet cs (f c)) :
    Quiet cs (get >>= f) :=
  fun c hc => get_bind (hf c hc c hc)

theorem quiet_modify {g : Cursor → Cursor} {f : Unit → Parser β}
    (hg : ∀ c : Cursor, c.In cs → (g c).In cs) (hf : Quiet cs (f ())) :
    Quiet cs (modify g >>= f) :=
  fun c hc => modify_bind (hf (g c) (hg c hc))

theorem quiet_failAt {span : Span} (h : span.Within cs) (cause : Cause) :
    Quiet cs (failAt span cause : Parser α) :=
  fun _ _ => yields_failAt ⟨h, rfl⟩

theorem quiet_fail (cause : Cause) : Quiet cs (fail cause : Parser α) :=
  quiet_get fun _ hc => quiet_failAt hc.within_span cause

theorem quiet_range {start stop : Nat} {f : Span → Parser β}
    (hf : start ≤ stop → Quiet cs (f ⟨start, stop⟩)) : Quiet cs (range start stop >>= f) := by
  unfold range
  split
  · rename_i hle
    rw [pure_bind]
    exact hf hle
  · exact fun _ _ => trivial

theorem quiet_slice {span : Span} {f : String → Parser β}
    (hf : span.Within cs → ∀ text, Quiet cs (f text)) : Quiet cs (slice span >>= f) := by
  unfold slice
  rw [bind_assoc]
  refine quiet_get fun c hc => ?_
  rw [hc.source]
  split
  · exact fun _ _ => trivial
  · rename_i part hpart
    rw [pure_bind]
    exact hf (Span.within_iff_slice?.2 ⟨part, hpart⟩) _

/-- A look changes nothing but the number of looks. -/
theorem look_moves {fails : Failure → Prop} {c : Cursor} (n : Nat) (hf : fails (.fault .stalled)) :
    Yields (look n) c (fun _ c' => ∃ looks, c' = { c with looks }) fails := by
  refine get_bind ?_
  split
  · exact hf
  · exact set_bind (yields_pure ⟨_, rfl⟩)

theorem quiet_look (n : Nat) : Quiet cs (look n) := by
  intro c hc
  refine (look_moves n trivial).mono ?_
  rintro _ _ ⟨looks, rfl⟩
  exact ⟨hc.source, hc.placed⟩

theorem quiet_isAt (k : Kind) : Quiet cs (isAt k) := (quiet_look 0).bind fun _ => quiet_pure _

theorem quiet_isAtAny (ks : KindSet) : Quiet cs (isAtAny ks) :=
  (quiet_look 0).bind fun _ => quiet_pure _

theorem quiet_expect (k : Kind) : Quiet cs (expect k) := by
  refine (quiet_isAt k).bind fun b => ?_
  split
  · exact quiet_pure ()
  · exact quiet_fault _

theorem quiet_consume : Quiet cs consume := by
  intro c hc
  refine get_bind ?_
  split
  · trivial
  · rename_i l ls hl
    rw [isAt, bind_assoc]
    refine (look_moves 0 trivial).bind ?_
    rintro k _ ⟨looks, rfl⟩
    rw [pure_bind]
    split
    · exact quiet_fail _ _ ⟨hc.source, hc.placed⟩
    · refine modify_bind ((spendFuel_yields fun _ => trivial).bind ?_)
      rintro _ _ ⟨fuel, -, rfl⟩
      exact modify_bind (yields_pure ⟨hc.source, hc.placed.tail hl⟩)

theorem quiet_sound (r : Except InvalidNode α) : Quiet cs (sound r) := by
  unfold sound
  split
  · exact quiet_pure _
  · exact quiet_fault _

theorem quiet_newToken (category : Category) (text : String) : Quiet cs (newToken category text) :=
  quiet_sound _

theorem quiet_token (category : Category) : Quiet cs (token category) :=
  quiet_consume.bind fun _ => quiet_newToken _ _

theorem quiet_substitution : Quiet cs substitution := by
  refine (quiet_expect _).bind fun _ => quiet_get fun c hc => ?_
  split
  · exact quiet_fail _
  · exact quiet_consume.bind fun _ =>
      quiet_modify (fun c hc => ⟨hc.source, hc.placed⟩) (quiet_pure _)

theorem Quiet.collect {step : Parser (Option α)} (h : Quiet cs step) : Quiet cs (collect step) := by
  have hwithin : ∀ n, Quiet cs (collectWithin step n) := by
    intro n
    induction n with
    | zero => exact quiet_fault _
    | succ n ih =>
      refine h.bind fun r => ?_
      split
      · exact quiet_pure _
      · exact ih.bind fun _ => quiet_pure _
  exact quiet_get fun _ _ => hwithin _

end Steps

/-! ## Atoms -/

theorem quiet_literal : Quiet cs literal := (quiet_token _).bind fun _ => quiet_sound _

theorem quiet_splice (family? : Node → Option α) (cause : NodeType → Cause) :
    Quiet cs (splice family? cause) := by
  refine quiet_get fun c hc => quiet_substitution.bind fun n => ?_
  split
  · exact quiet_pure _
  · exact quiet_failAt hc.within_span _

/-! ## Sigils -/

theorem quiet_isAtSigil : Quiet cs isAtSigil := by
  refine (quiet_isAtAny _).bind fun b => ?_
  split
  · exact quiet_pure _
  · exact quiet_get fun _ _ => quiet_pure _

theorem quiet_digit : Quiet cs digit := by
  refine (quiet_isAt _).bind fun b => ?_
  split
  · exact quiet_consume.map _
  · exact quiet_pure _

theorem quiet_number : Quiet cs number := by
  refine quiet_get fun c hc => quiet_digit.collect.bind fun digits => quiet_range fun hle => ?_
  refine quiet_slice fun hwithin text => ?_
  split
  · exact quiet_failAt hwithin _
  · exact (quiet_newToken _ _).bind fun _ => quiet_pure _

theorem quiet_upperBound (n : Nat) : Quiet cs (upperBound n) := by
  refine (quiet_isAt _).bind fun b => ?_
  split
  · refine (quiet_token _).bind fun separator => (quiet_isAt _).bind fun b => ?_
    split
    · exact quiet_number.bind fun _ => quiet_pure _
    · exact quiet_pure _
  · exact quiet_pure _

theorem quiet_braces : Quiet cs braces := by
  refine quiet_get fun c hc => (quiet_token _).bind fun _ => quiet_number.bind fun min => ?_
  refine (quiet_upperBound _).bind fun upper => quiet_get fun c' hc' => ?_
  refine (quiet_token _).bind fun _ => ?_
  split
  · exact (quiet_sound _).bind fun _ => quiet_pure _
  · exact quiet_range fun hle =>
      quiet_failAt (Span.Within.upto hc.within_span hc'.within_span hle) _

theorem quiet_signBounds : Quiet cs signBounds := by
  refine (quiet_isAtAny _).bind fun b => ?_
  split
  · exact quiet_get fun _ _ => quiet_pure _
  · exact quiet_pure _

theorem quiet_sigil : Quiet cs sigil := by
  refine (quiet_isAt _).bind fun b => ?_
  split
  · exact quiet_braces
  · refine quiet_signBounds.bind fun r => ?_
    split
    · exact quiet_fail _
    · exact (quiet_token _).bind fun _ => quiet_pure _

theorem quiet_repeated (e : Element) : Quiet cs (repeated e) := by
  refine quiet_isAtSigil.bind fun b => ?_
  split
  · split
    · exact quiet_fail _
    · refine quiet_sigil.bind fun s => (quiet_isAt _).bind fun b => ?_
      split
      · exact quiet_fail _
      · refine quiet_isAtSigil.bind fun b => ?_
        split
        · exact quiet_fail _
        · exact (quiet_sound _).bind fun _ => quiet_pure _
  · exact quiet_pure _

/-! ## Slashes and flags -/

theorem quiet_flagTokens : ∀ (n : Nat) (seen : FlagSet), Quiet cs (flagTokens n seen)
  | 0, _ => quiet_fault _
  | n + 1, seen => by
    refine (quiet_look 0).bind fun k => ?_
    split
    · exact quiet_pure _
    · exact quiet_fail _
    · exact quiet_fail _
    · refine quiet_get fun c hc => ?_
      split
      · exact quiet_fail _
      · split
        · exact quiet_fail _
        · exact (quiet_token _).bind fun _ =>
            (quiet_flagTokens n _).bind fun _ => quiet_pure _

theorem quiet_flags : Quiet cs flags := by
  refine (quiet_isAt _).bind fun b => ?_
  split
  · refine (quiet_splice _ _).bind fun f => (quiet_isAt _).bind fun b => ?_
    split
    · exact quiet_pure _
    · exact quiet_fail _
  · exact quiet_get fun _ _ => (quiet_flagTokens _ _).bind fun _ => quiet_sound _

theorem quiet_finish : Quiet cs finish := by
  refine (quiet_expect _).bind fun _ => quiet_get fun c hc => ?_
  split
  · exact quiet_pure _
  · refine quiet_failAt ?_ _
    rw [Cursor.stop, hc.source]
    exact Span.within_empty (isBoundary_byteSize cs)

end Parser

end RegexLiteral
