import RegexLiteral.Proofs.BracesAhead
import RegexLiteral.Proofs.Shift.Run

/-!
# Reading with another beginning

Every parser of the grammar moves along when the source before it is exchanged: what stands behind
an opening slash is read the same whatever the slash has before and behind it. A parser is followed
through its steps. Two of them need more than that: a number cuts its digits out of the source, and
what begins with a bracket or a backslash notes where that stands.
-/

namespace RegexLiteral

theorem Lexeme.stopOf_shift (distance start : Nat) (ls : List Lexeme) :
    Lexeme.stopOf (start + distance) (ls.map (Lexeme.shift distance))
      = Lexeme.stopOf start ls + distance := by
  unfold stopOf
  rw [List.getLast?_map]
  cases ls.getLast? with
  | none => rfl
  | some l => exact congrArg Span.stop (l.span_shift distance)

theorem itemsOf_shift (distance : Nat) : ∀ (ls : List Lexeme) (ns : List Node),
    itemsOf (ls.map (Lexeme.shift distance)) ns = itemsOf ls ns
  | [], _ => rfl
  | ⟨_, .char _⟩ :: ls, ns => congrArg _ (itemsOf_shift distance ls ns)
  | ⟨_, .terminators _⟩ :: ls, ns => congrArg _ (itemsOf_shift distance ls ns)
  | ⟨_, .interpolation⟩ :: ls, [] => congrArg _ (itemsOf_shift distance ls [])
  | ⟨_, .interpolation⟩ :: ls, _ :: ns => congrArg _ (itemsOf_shift distance ls ns)

namespace Parser

theorem startsBraces_shift (distance : Nat) (ls : List Lexeme) :
    startsBraces (ls.map (Lexeme.shift distance)) = startsBraces ls := by
  rw [Bool.eq_iff_iff, startsBraces_iff _ [], startsBraces_iff _ [], itemsOf_shift]

variable {m : Rebase} {α : Type}

/-! ## Atoms -/

theorem steady_literal : Steady m literal := (steady_token _).bind fun _ => steady_sound _

theorem steady_escapeCode (hm : 0 < byteSize m.before) : Steady m escapeCode := by
  refine (steady_expect _).bind fun _ => moves_get fun c hc => ?_
  refine moves_consume.bind fun _ => (steady_isAt _).bind fun b => ?_
  dsimp only [id]
  split
  · exact moves_fail _
  refine (steady_isAt _).bind fun b => ?_
  dsimp only [id]
  split
  · exact moves_fail _
  refine moves_get fun c' _ => ?_
  rw [Rebase.chars_cursor]
  split
  · -- The backslash stands behind the opening slash, so its range moves.
    have hspan : (m.cursor c).span = c.span.shiftRelated m.distance := by
      rw [Span.shiftRelated_of_pos (Nat.lt_of_lt_of_le hm hc.start_le), m.span_cursor hc]
    rw [hspan]
    exact moves_failBecause _ [⟨c.span, .escapeStarted⟩]
  · exact moves_consume.bind fun _ => steady_pure _

theorem steady_escapeTokens (code : Char) : Steady m (escapeTokens code) :=
  (steady_newToken _ _).bind fun _ => (steady_newToken _ _).bind fun _ => steady_pure _

theorem steady_escapedCharacter (code : Char) : Steady m (escapedCharacter code) :=
  (steady_escapeTokens _).bind fun _ => (steady_sound _).bind fun _ => steady_pure _

theorem steady_wordSet (code : Char) : Steady m (wordSet code) :=
  (steady_escapeTokens _).bind fun _ => steady_sound _

theorem steady_gap (code : Char) : Steady m (gap code) :=
  (steady_escapeTokens _).bind fun _ => steady_sound _

theorem steady_escape (hm : 0 < byteSize m.before) : Steady m escape := by
  refine (steady_escapeCode hm).bind fun code => ?_
  dsimp only [id]
  split
  · exact (steady_wordSet _).bind fun _ => steady_pure _
  split
  · exact (steady_gap _).bind fun _ => steady_pure _
  · exact (steady_escapedCharacter _).bind fun _ => steady_pure _

theorem steady_classEscape (hm : 0 < byteSize m.before) : Steady m classEscape := by
  refine (steady_escapeCode hm).bind fun code => ?_
  dsimp only [id]
  split
  · exact (steady_wordSet _).bind fun _ => steady_pure _
  · exact (steady_escapedCharacter _).bind fun _ => steady_pure _

theorem steady_splice (family? : Node → Option α) (cause : NodeType → Cause) :
    Steady m (splice family? cause) := by
  refine moves_get fun c hc => ?_
  rw [m.span_cursor hc]
  refine steady_substitution.bind fun node => ?_
  dsimp only [id]
  split
  · exact steady_pure _
  · exact moves_failAt _ _

/-! ## Classes -/

theorem steady_rangeEndFollows : Steady m rangeEndFollows := by
  refine (steady_look 1).bind fun k => ?_
  dsimp only [id]
  split
  case h_4 =>
    refine moves_get fun c _ => ?_
    rw [Rebase.charsAt_cursor]
    exact steady_pure _
  case h_5 => exact moves_get fun c _ => steady_pure _
  all_goals exact steady_pure _

theorem steady_isAtRange : Steady m isAtRange := by
  refine (steady_isAt _).bind fun b => ?_
  dsimp only [id]
  split
  · exact steady_rangeEndFollows
  · exact steady_pure _

theorem steady_classAtom (hm : 0 < byteSize m.before) : Steady m classAtom := by
  refine (steady_look 0).bind fun k => ?_
  dsimp only [id]
  split
  · exact steady_classEscape hm
  · exact steady_splice _ _
  · exact steady_literal.map _

theorem steady_rangeEnd (hm : 0 < byteSize m.before) : Steady m rangeEnd := by
  refine moves_get fun c hc => ?_
  rw [m.span_cursor hc]
  refine (steady_classAtom hm).bind fun e => ?_
  dsimp only [id]
  split
  · exact steady_pure _
  · exact moves_failAt _ _

theorem steady_rangeFrom (hm : 0 < byteSize m.before) (min : Character) :
    Steady m (rangeFrom min) := by
  refine steady_isAtRange.bind fun b => ?_
  dsimp only [id]
  split
  · refine (steady_token _).bind fun sigil => (steady_rangeEnd hm).bind fun max => ?_
    exact (steady_sound _).bind fun _ => steady_pure _
  · exact steady_pure _

theorem steady_classElement (hm : 0 < byteSize m.before) : Steady m classElement := by
  refine (steady_classAtom hm).bind fun e => ?_
  dsimp only [id]
  split
  · exact steady_rangeFrom hm _
  · exact steady_pure _

theorem steady_nextClassElement (hm : 0 < byteSize m.before) : Steady m nextClassElement := by
  refine (steady_look 0).bind fun k => ?_
  dsimp only [id]
  split
  · exact steady_pure _
  · exact moves_failUnclosed _ _
  · exact (steady_classElement hm).map _

theorem steady_negation : Steady m negation := by
  refine (steady_isAt _).bind fun b => ?_
  dsimp only [id]
  split
  · exact (steady_token _).map _
  · exact steady_pure _

theorem steady_classBody (hm : 0 < byteSize m.before) : Steady m classBody :=
  steady_negation.bind fun _ => (steady_nextClassElement hm).collect.bind fun _ => steady_pure _

theorem steady_characterClass (hm : 0 < byteSize m.before) : Steady m characterClass := by
  refine (steady_expect _).bind fun _ => (steady_openDelimiter hm _).bind fun _ => ?_
  refine (steady_token _).bind fun _ => (steady_classBody hm).bind fun _ => ?_
  exact (steady_token _).bind fun _ => steady_closeDelimiter.bind fun _ => steady_sound _

/-! ## Sigils -/

theorem steady_isAtSigil : Steady m isAtSigil := by
  refine (steady_isAtAny _).bind fun b => ?_
  dsimp only [id]
  split
  · exact steady_pure _
  · refine moves_get fun c _ => ?_
    rw [Rebase.lexemes_cursor, startsBraces_shift]
    exact steady_pure _

theorem moves_digit : Moves m (Option.map (Lexeme.shift m.distance)) digit digit := by
  refine (steady_isAt _).bind fun b => ?_
  dsimp only [id]
  split
  · exact moves_consume.map fun _ => rfl
  · exact moves_pure rfl

theorem steady_number : Steady m number := by
  refine moves_get fun c hc => ?_
  rw [m.span_cursor hc]
  refine moves_digit.collect.bind fun digits => ?_
  rw [Span.shift, Lexeme.stopOf_shift]
  -- The digits stand where both sources are the same, so the same is cut out of both.
  have hstart (stop : Nat) : byteSize m.before ≤ (Span.mk c.span.start stop).start := hc.start_le
  refine moves_range fun _ => (moves_slice (hstart _)).bind fun text => ?_
  dsimp only [id]
  split
  · exact moves_failAt _ _
  · exact (steady_newToken _ _).bind fun _ => steady_pure _

theorem steady_upperBound (min : Nat) : Steady m (upperBound min) := by
  refine (steady_isAt _).bind fun b => ?_
  dsimp only [id]
  split
  · refine (steady_token _).bind fun separator => (steady_isAt _).bind fun b => ?_
    dsimp only [id]
    split
    · exact steady_number.bind fun _ => steady_pure _
    · exact steady_pure _
  · exact steady_pure _

theorem steady_braces : Steady m braces := by
  refine moves_get fun c hc => ?_
  rw [m.span_cursor hc]
  refine (steady_token _).bind fun openToken => steady_number.bind fun min => ?_
  refine (steady_upperBound _).bind fun upper => moves_get fun c' hc' => ?_
  rw [m.span_cursor hc']
  refine (steady_token _).bind fun closeToken => ?_
  dsimp only [id]
  split
  · exact (steady_sound _).bind fun _ => steady_pure _
  · exact moves_range fun _ => moves_failAt _ _

theorem steady_signBounds : Steady m signBounds := by
  refine (steady_isAtAny _).bind fun b => ?_
  dsimp only [id]
  split
  · refine moves_get fun c _ => ?_
    rw [Rebase.text_cursor]
    exact steady_pure _
  · exact steady_pure _

theorem steady_sigil : Steady m sigil := by
  refine (steady_isAt _).bind fun b => ?_
  dsimp only [id]
  split
  · exact steady_braces
  refine steady_signBounds.bind fun r => ?_
  dsimp only [id]
  split
  · exact moves_fail _
  · exact (steady_token _).bind fun _ => steady_pure _

theorem steady_repeated (e : Element) : Steady m (repeated e) := by
  refine steady_isAtSigil.bind fun b => ?_
  dsimp only [id]
  split
  · split
    · exact moves_fail _
    refine steady_sigil.bind fun s => (steady_isAt _).bind fun b => ?_
    dsimp only [id]
    split
    · exact moves_fail _
    refine steady_isAtSigil.bind fun b => ?_
    dsimp only [id]
    split
    · exact moves_fail _
    · exact (steady_sound _).bind fun _ => steady_pure _
  · exact steady_pure _

/-! ## Alternatives -/

theorem steady_element (hm : 0 < byteSize m.before) : Steady m element := by
  refine (steady_look 0).bind fun k => ?_
  dsimp only [id]
  split
  · exact (steady_characterClass hm).bind fun _ => steady_pure _
  · exact (steady_escape hm).bind fun _ => steady_pure _
  · exact steady_splice _ _
  refine steady_isAtSigil.bind fun b => ?_
  dsimp only [id]
  split
  · exact moves_fail _
  · exact steady_literal.bind fun _ => steady_pure _

theorem steady_nextElement (hm : 0 < byteSize m.before) : Steady m nextElement := by
  refine (steady_isAtAny _).bind fun b => ?_
  dsimp only [id]
  split
  · exact steady_pure _
  · exact (steady_element hm).bind fun e => (steady_repeated e).map _

theorem steady_alternative (hm : 0 < byteSize m.before) : Steady m alternative :=
  (steady_nextElement hm).collect.bind fun _ => steady_pure _

theorem steady_nextAlternative (hm : 0 < byteSize m.before) : Steady m nextAlternative := by
  refine (steady_isAt _).bind fun b => ?_
  dsimp only [id]
  split
  · exact (steady_token _).bind fun _ => (steady_alternative hm).bind fun _ => steady_pure _
  · exact steady_pure _

/-! ## The closing slash, flags and the end -/

theorem steady_closingSlash : Steady m closingSlash := by
  refine (steady_isAt _).bind fun b => ?_
  dsimp only [id]
  split
  · exact (steady_token _).bind fun _ => steady_closeDelimiter.bind fun _ => steady_pure _
  · exact moves_failUnclosed _ _

theorem steady_flagTokens : ∀ (n : Nat) (seen : FlagSet), Steady m (flagTokens n seen)
  | 0, _ => moves_fault nofun
  | n + 1, seen => by
    refine (steady_look 0).bind fun k => ?_
    dsimp only [id]
    split
    · exact steady_pure _
    · exact moves_fail _
    · exact moves_fail _
    refine moves_get fun c _ => ?_
    rw [Rebase.chars_cursor, Rebase.text_cursor]
    split
    · exact moves_fail _
    split
    · exact moves_fail _
    · exact (steady_token _).bind fun _ =>
        (steady_flagTokens n _).bind fun _ => steady_pure _

theorem steady_flags : Steady m flags := by
  refine (steady_isAt _).bind fun b => ?_
  dsimp only [id]
  split
  · refine (steady_splice _ _).bind fun f => (steady_isAt _).bind fun b => ?_
    dsimp only [id]
    split
    · exact steady_pure _
    · exact moves_fail _
  · refine moves_get fun c _ => ?_
    rw [Rebase.lexemes_cursor, List.length_map]
    exact (steady_flagTokens _ _).bind fun _ => steady_sound _

theorem steady_finish : Steady m finish := by
  refine (steady_expect _).bind fun _ => moves_get fun c hc => ?_
  rw [Rebase.substitutions_cursor, hc.nodes]
  exact steady_pure _

end Parser

end RegexLiteral
