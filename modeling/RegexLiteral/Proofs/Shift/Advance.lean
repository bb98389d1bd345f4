import RegexLiteral.Proofs.Fuel
import RegexLiteral.Proofs.Yields

/-!
# Steps that advance

A step advances if it takes a lexeme whenever it gives something (`Advances`). Then the bound on
the number of repetitions does not matter, and repeating the step is doing it once and, if it gave
something, repeating it (`collect_eq`). The step that reads a further alternative advances.
-/

namespace RegexLiteral

namespace Parser

variable {α β : Type} {c c' : Cursor}

theorem Metered.yields {p : Parser α} (h : Metered p) (hc : c.fuel = none) :
    Yields p c (fun _ c' => c'.fuel = none ∧ c'.lexemes.length ≤ c.lexemes.length)
      fun _ => True := by
  obtain ⟨used, hlength, hfree, -⟩ := h c
  have hcc : c.withFuel none = c := by rw [← hc]; rfl
  rw [hcc] at hlength hfree
  unfold Yields
  cases hp : p c with
  | error e c' => trivial
  | ok a c' =>
    rw [hp] at hlength hfree
    have hfuel : c'.withFuel none = c' := (EStateM.Result.ok.inj hfree).2
    refine ⟨by rw [← hfuel]; rfl, ?_⟩
    rw [hlength]
    exact Nat.le_add_left _ _

/-- Without a limit on the fuel the step goes on, and it takes a lexeme whenever it gives
something. -/
def Advances (step : Parser (Option α)) : Prop := ∀ c : Cursor, c.fuel = none →
  Yields step c (fun r c' => c'.fuel = none ∧ (r.isSome → c'.lexemes.length < c.lexemes.length))
    fun _ => True

theorem consume_shortens (hc : c.fuel = none) : Yields consume c
    (fun _ c' => c'.fuel = none ∧ c'.lexemes.length < c.lexemes.length) fun _ => True := by
  unfold Yields
  cases hl : c.lexemes with
  | nil =>
    rw [consume_nil hl]
    trivial
  | cons l ls =>
    rw [consume_cons hl, hc]
    cases c.looks with
    | zero => trivial
    | succ looks =>
      by_cases hg : l.kind = .garbage
      · simp only [hg, if_true]
      · simp only [hg, if_false]
        exact ⟨trivial, Nat.lt_succ_self _⟩

theorem token_shortens (hc : c.fuel = none) (category : Category) : Yields (token category) c
    (fun _ c' => c'.fuel = none ∧ c'.lexemes.length < c.lexemes.length) fun _ => True := by
  refine (consume_shortens hc).bind fun l c₁ h => ?_
  exact ((elementary_metered.sound _).yields h.1).mono fun _ c₂ h₂ =>
    ⟨h₂.1, Nat.lt_of_le_of_lt h₂.2 h.2⟩

theorem advances_nextAlternative : Advances nextAlternative := by
  intro c hc
  refine ((elementary_metered.isAt _).yields hc).bind fun b c₁ h₁ => ?_
  split
  · refine (token_shortens h₁.1 _).bind fun t c₂ h₂ => ?_
    refine (elementary_metered.stepwise.alternative.yields h₂.1).bind fun a c₃ h₃ =>
      yields_pure ⟨h₃.1, fun _ => ?_⟩
    exact Nat.lt_of_le_of_lt h₃.2 (Nat.lt_of_lt_of_le h₂.2 h₁.2)
  · exact yields_pure ⟨h₁.1, nofun⟩

theorem bind_congr_apply {p q : Parser α} (h : p c = q c') (f : α → Parser β) :
    (p >>= f) c = (q >>= f) c' := by
  simp only [Bind.bind, EStateM.bind, h]

variable {step : Parser (Option α)}

/-- What follows a step matters only where fewer lexemes are left. -/
theorem Advances.bind_congr (h : Advances step) (hc : c.fuel = none) {f g : Option α → Parser β}
    (hnone : f none = g none) (hsome : ∀ a (c' : Cursor), c'.fuel = none →
      c'.lexemes.length < c.lexemes.length → f (some a) c' = g (some a) c') :
    (step >>= f) c = (step >>= g) c := by
  have hstep := h c hc
  unfold Yields at hstep
  cases hrun : step c with
  | error e c' => rw [bind_eq_of_error hrun, bind_eq_of_error hrun]
  | ok r c' =>
    rw [bind_eq_of_ok hrun, bind_eq_of_ok hrun]
    rw [hrun] at hstep
    cases r with
    | none => rw [hnone]
    | some a => exact hsome a c' hstep.1 (hstep.2 rfl)

/-- The bound on the number of repetitions does not matter. -/
theorem collectWithin_eq (h : Advances step) {n k : Nat} (hc : c.fuel = none)
    (hn : c.lexemes.length < n) (hk : c.lexemes.length < k) :
    collectWithin step n c = collectWithin step k c := by
  induction n generalizing k c with
  | zero => omega
  | succ n ih =>
    obtain ⟨k, rfl⟩ : ∃ k', k = k' + 1 := ⟨k - 1, by omega⟩
    exact h.bind_congr hc rfl fun a c' hc' hlt =>
      bind_congr_apply (ih hc' (by omega) (by omega)) _

theorem collect_eq (h : Advances step) (hc : c.fuel = none) :
    collect step c = (do
      match ← step with
      | none => return []
      | some a => return a :: (← collect step)) c :=
  h.bind_congr hc rfl fun _ _ hc' hlt =>
    bind_congr_apply (collectWithin_eq h hc' hlt (Nat.lt_succ_self _)) _

theorem collect_none (h : step c = .ok none c') : collect step c = .ok [] c' := by
  change (step >>= _) c = _
  rw [bind_eq_of_ok h]
  rfl

end Parser

end RegexLiteral
