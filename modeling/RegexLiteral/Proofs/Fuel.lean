import RegexLiteral.Proofs.Derivation
import RegexLiteral.Proofs.Metered
import RegexLiteral.Proofs.Stepwise

/-!
# Fuel is a threshold

Every step is metered, and so is every parser. So a template has a number of lexemes that reading
takes: with less fuel it runs out, and with that much or more the result is the one without a limit
(`Template.parse_fuel_threshold`).
-/

namespace RegexLiteral

namespace Parser

variable {α : Type}

theorem elementary_metered : Elementary Metered where
  pure := metered_pure
  bind := Metered.bind
  fault := metered_fault
  look := metered_look
  get hf hsame := metered_get hf fun c fuel => hsame c c.looks c.allowance fuel
  modify hlexemes hsame := metered_modify hlexemes fun c fuel =>
    (hsame c c.looks c.allowance fuel).trans
      (congrArg (·.withFuel fuel) (hsame c c.looks c.allowance c.fuel)).symm
  throw _ := metered_throw nofun
  consume := metered_consume

theorem metered_production (production : Production) : Metered production.parser :=
  elementary_metered.production production

end Parser

namespace Template

open RegexLiteral.Parser

variable (t : Template) (production : Production)

/-- How reading ends, with the cursor where it does. -/
def ending (fuel : Option Nat) : Ending Node := production.parser (t.cursor fuel)

/-- The number of lexemes that are taken if there is no limit. -/
def taken : Nat := t.lexemes.length - (t.ending production none).cursor.lexemes.length

theorem parse_eq_ending (fuel : Option Nat) :
    t.parse production fuel = Ending.outcome (t.ending production fuel) := t.run_eq _ _

/-- A source that is read is read to its end. -/
theorem lexemes_ending {n : Node} (h : t.parse production none = .ok n) :
    (t.ending production none).cursor.lexemes = [] := by
  have hproper := failsUnless_isProper (WholeAhead production (t.cursor none))
  have hy := production_yields (Cursor.regular_cursor t none) lookAllowance.enough hproper
  rw [parse_eq_ending] at h
  unfold Yields at hy
  cases he : t.ending production none with
  | ok n c =>
    rw [show production.parser (t.cursor none) = .ok n c from he] at hy
    obtain ⟨w, -, -, -, hnil, -⟩ := hy
    exact Cursor.items_eq_nil_iff.1 hnil
  | error e c =>
    rw [he] at h
    cases h

/-- A limit on the fuel is a threshold. Below the number of lexemes that are taken without a limit
the fuel runs out, and from there on everything is as without a limit, errors included. That number
is at most the number of all lexemes, and exactly that if the source is read. -/
theorem parse_fuel_threshold :
    t.taken production ≤ t.lexemes.length
      ∧ (∀ n < t.taken production, t.parse production (some n) = .error .outOfFuel)
      ∧ (∀ n, t.taken production ≤ n →
        t.parse production (some n) = t.parse production none)
      ∧ (∀ node, t.parse production none = .ok node → t.taken production = t.lexemes.length)
      ∧ t.parse production none ≠ .error .outOfFuel := by
  obtain ⟨used, h⟩ := metered_production production (t.cursor none)
  obtain ⟨hlength, -, hunlimited, hshort, henough⟩ := h
  have hend (fuel : Option Nat) : production.parser ((t.cursor none).withFuel fuel)
      = t.ending production fuel := rfl
  simp only [hend] at hlength hunlimited hshort henough
  have hused : t.taken production = used := by
    have hlexemes : (t.cursor none).lexemes = t.lexemes := rfl
    rw [taken, ← hlexemes, hlength, Nat.add_sub_cancel]
  refine ⟨Nat.sub_le _ _, fun n hn => ?_, fun n hn => ?_, fun node hnode => ?_, fun hfuel => ?_⟩
  · obtain ⟨c, hc⟩ := hshort n (hused ▸ hn)
    rw [parse_eq_ending, hc]
    rfl
  · obtain ⟨m, rfl⟩ := Nat.exists_eq_add_of_le (hused ▸ hn)
    rw [parse_eq_ending, parse_eq_ending, henough m]
    cases t.ending production none <;> rfl
  · rw [taken, t.lexemes_ending production hnode]
    rfl
  · rw [parse_eq_ending] at hfuel
    cases he : t.ending production none with
    | ok n c =>
      rw [he] at hfuel
      cases hfuel
    | error e c =>
      rw [he] at hfuel
      cases hfuel
      exact hunlimited c he

/-- The second sigil, which is refused, is not taken. -/
example : (ofText "/a+*/").taken .pattern = 3 := by decide +kernel

end Template

end RegexLiteral
