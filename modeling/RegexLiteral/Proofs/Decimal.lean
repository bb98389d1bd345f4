import Mathlib.Data.Nat.Digits.Defs
import RegexLiteral.Span
import RegexLiteral.Text.Decimal

/-!
# The value of a row of digits

A number is read by one pass from the left. What it is worth is said here by the place of each
digit, counted from the right, and a text is a number exactly if it is a row of digits that is worth
less than `2 ^ 32`.
-/

namespace RegexLiteral.Text

/-- Every digit times the power of ten of its place, and all that added up. -/
def placeValue (cs : List Char) : Nat :=
  Nat.ofDigits 10 (cs.reverse.map fun c => c.toNat - '0'.toNat)

variable {cs : List Char}

theorem decimalValue_eq (cs : List Char) : decimalValue cs = placeValue cs := by
  unfold decimalValue placeValue
  rw [← List.foldr_reverse]
  induction cs.reverse with
  | nil => rfl
  | cons c cs ih =>
    rw [List.foldr_cons, List.map_cons, Nat.ofDigits_cons, ih, Nat.add_comm]

theorem readNumber?_ofList (hne : cs ≠ []) (hd : ∀ c ∈ cs, isDigit c) :
    readNumber? (String.ofList cs)
      = if placeValue cs < numberLimit then some (placeValue cs) else none := by
  have hall : cs.all isDigit = true := List.all_eq_true.2 hd
  simp only [readNumber?, String.toList_ofList, decimalValue_eq, hne, hall, ne_eq, not_false_iff,
    true_and]

/-- What is a number, and which one. -/
theorem readNumber?_eq_some_iff {s : String} {n : Nat} : readNumber? s = some n
    ↔ s ≠ "" ∧ (∀ c ∈ s.toList, isDigit c) ∧ placeValue s.toList < 2 ^ 32
      ∧ n = placeValue s.toList := by
  have hempty : s.toList ≠ [] ↔ s ≠ "" := by simp
  simp only [readNumber?, decimalValue_eq, hempty, List.all_eq_true, numberLimit]
  split
  · rename_i h
    obtain ⟨hne, hd, hlt⟩ := h
    exact ⟨fun h => ⟨hne, hd, hlt, (Option.some.inj h).symm⟩, fun h => congrArg some h.2.2.2.symm⟩
  · rename_i h
    exact ⟨fun hn => absurd hn (by simp), fun hn => absurd ⟨hn.1, hn.2.1, hn.2.2.1⟩ h⟩

theorem byteSize_of_isDigit (hd : ∀ c ∈ cs, isDigit c) : byteSize cs = cs.length := by
  induction cs with
  | nil => rfl
  | cons c cs ih =>
    have hc : c.utf8Size = 1 := by
      have h := hd c List.mem_cons_self
      simp only [isDigit, Bool.and_eq_true, decide_eq_true_eq] at h
      exact Char.utf8Size_eq_one_iff.2 (UInt32.le_trans h.2 (by decide))
    rw [byteSize_cons, hc, ih fun e he => hd e (List.mem_cons_of_mem c he), List.length_cons,
      Nat.add_comm]

end RegexLiteral.Text
