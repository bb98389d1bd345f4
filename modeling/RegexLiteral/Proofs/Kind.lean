import RegexLiteral.Lexeme

/-!
# The kinds of characters

Fifteen characters have a kind of their own (`Kind.char?`); of every other character the kind tells
only the class (`Kind.ofChar_cases`).
-/

namespace RegexLiteral

/-- The character of a kind that has only one. -/
def Kind.char? : Kind → Option Char
  | slash => some '/'
  | pipe => some '|'
  | caret => some '^'
  | minus => some '-'
  | bracketOpen => some '['
  | bracketClose => some ']'
  | braceOpen => some '\x7b'
  | braceClose => some '\x7d'
  | parenOpen => some '('
  | parenClose => some ')'
  | plus => some '+'
  | star => some '*'
  | question => some '?'
  | backslash => some '\\'
  | comma => some ','
  | _ => none

theorem isLineTerminator_iff {c : Char} :
    isLineTerminator c ↔ c = '\n' ∨ c = '\r' ∨ c = '\u2028' ∨ c = '\u2029' := by
  simp [isLineTerminator, or_assoc]

namespace Kind

/-- A character has a kind of its own, or belongs to one of the four classes. -/
theorem ofChar_cases (c : Char) :
    (ofChar c).char? = some c ∨ (ofChar c = digit ∧ Text.isDigit c) ∨ ofChar c = letter
      ∨ (ofChar c = garbage ∧ isLineTerminator c) ∨ ofChar c = other := by
  unfold ofChar
  split
  case h_16 =>
    by_cases hd : Text.isDigit c
    · simp [hd]
    by_cases ha : c.isAlpha
    · simp [hd, ha]
    by_cases ht : isLineTerminator c <;> simp [hd, ha, ht]
  all_goals exact .inl rfl

theorem ofChar_eq_iff {k : Kind} {a c : Char} (h : k.char? = some a) : ofChar c = k ↔ c = a := by
  constructor
  · rintro rfl
    rcases ofChar_cases c with hc | ⟨hc, -⟩ | hc | ⟨hc, -⟩ | hc <;> rw [hc] at h
    · exact Option.some.inj h
    all_goals simp [char?] at h
  · rintro rfl
    cases k <;> simp only [char?, Option.some.injEq, reduceCtorEq] at h <;> subst h <;> rfl

theorem ofChar_eq_digit_iff {c : Char} : ofChar c = digit ↔ Text.isDigit c := by
  constructor
  · intro h
    rcases ofChar_cases c with hc | ⟨-, hc⟩ | hc | ⟨hc, -⟩ | hc <;> simp_all [char?]
  · intro h
    unfold ofChar
    split
    case h_16 => rw [if_pos h]
    all_goals exact absurd h (by decide)

theorem ofChar_eq_garbage_iff {c : Char} : ofChar c = garbage ↔ isLineTerminator c := by
  constructor
  · intro h
    rcases ofChar_cases c with hc | ⟨hc, -⟩ | hc | ⟨-, hc⟩ | hc <;> simp_all [char?]
  · rw [isLineTerminator_iff]
    rintro (rfl | rfl | rfl | rfl) <;> rfl

theorem ofChar_ne_interpolation (c : Char) : ofChar c ≠ interpolation := by
  intro h
  rcases ofChar_cases c with hc | ⟨hc, -⟩ | hc | ⟨hc, -⟩ | hc <;> simp_all [char?]

theorem ofChar_ne_eof (c : Char) : ofChar c ≠ eof := by
  intro h
  rcases ofChar_cases c with hc | ⟨hc, -⟩ | hc | ⟨hc, -⟩ | hc <;> simp_all [char?]

end Kind

end RegexLiteral
