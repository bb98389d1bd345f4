import RegexLiteral.Proofs.Written

/-!
# Bodies of classes

An atom of a class begins a range only if a minus and something that can end a range stand behind it
(`RangeStart`); otherwise it is an element by itself. A class is negated if its body begins with a
literal caret.
-/

namespace RegexLiteral.Written.ClassAtom

theorem isMinus_iff {b : ClassAtom} : b.isMinus ↔ b.items = [.char '-'] := by
  cases b with
  | char c _ => simp [isMinus, items]
  | _ => simp [isMinus, items]

/-- The atoms begin with a minus behind which something can end a range. -/
def RangeStart (as : List ClassAtom) : Prop :=
  ∃ b c rest, as = b :: c :: rest ∧ b.isMinus ∧ c.character?.isSome

theorem rangeStart_cons_cons {b c : ClassAtom} {rest : List ClassAtom} :
    RangeStart (b :: c :: rest) ↔ b.isMinus ∧ c.character?.isSome := by
  constructor
  · rintro ⟨_, _, _, ⟨⟩, h⟩
    exact h
  · exact fun h => ⟨b, c, rest, rfl, h⟩

theorem not_rangeStart_singleton {a : ClassAtom} : ¬ RangeStart [a] := by
  rintro ⟨_, _, _, ⟨⟩, -⟩

theorem elements_of_rangeStart {a : ClassAtom} {min : Character} {as : List ClassAtom}
    (ha : a.character? = some min) (h : RangeStart as) :
    ∃ r es, elements (a :: as) = .range r :: es := by
  obtain ⟨b, c, rest, rfl, hminus, hsome⟩ := h
  obtain ⟨max, hmax⟩ := Option.isSome_iff_exists.1 hsome
  exact ⟨_, _, by rw [elements, ha, hminus, hmax]⟩

theorem elements_cons_of_not_range {a : ClassAtom} {as : List ClassAtom}
    (h : a.character? = none ∨ ¬ RangeStart as) :
    elements (a :: as) = a.element :: elements as := by
  rcases as with _ | ⟨b, _ | ⟨c, as⟩⟩
  · rfl
  · rfl
  rw [elements]
  split
  · rename_i min max hmin hminus hmax
    rcases h with h | h
    · cases hmin.symm.trans h
    · exact absurd ⟨b, c, as, rfl, hminus, by rw [hmax]; rfl⟩ h
  · rfl

theorem negation_caret (h : '^' ≠ ']' ∧ '^' ≠ '\\') (rest : List ClassAtom) :
    negation (.char '^' h :: rest) = (some (.ofChar .punctuator '^'), rest) := by
  rw [negation, if_pos rfl]

theorem negation_cases (body : List ClassAtom) :
    (∃ h rest, body = .char '^' h :: rest) ∨ negation body = (none, body) := by
  unfold negation
  split
  · rename_i c h rest
    by_cases hc : c = '^'
    · subst hc
      exact .inl ⟨h, rest, rfl⟩
    · exact .inr (if_neg hc)
  · exact .inr rfl

theorem negateToken_eq (body : List ClassAtom) :
    ∀ t ∈ (negation body).1, t = .ofChar .punctuator '^' := by
  rcases negation_cases body with ⟨h, rest, rfl⟩ | hnone
  · rw [negation_caret]
    exact fun t ht => (Option.some.inj ht).symm
  · rw [hnone]
    rintro t ⟨⟩

end RegexLiteral.Written.ClassAtom
