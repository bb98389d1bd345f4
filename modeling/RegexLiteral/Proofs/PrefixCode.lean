import Mathlib.Data.List.Basic

/-!
# Prefix codes

A way of writing is a prefix code if what is written tells, whatever follows, what it is written
for and where it ends. A row of codes can then be read from the front, up to something that no code
begins like (`PrefixCode.flatMap_append_inj`).
-/

namespace RegexLiteral

variable {α β : Type}

/-- What stands before the first `b`, and what stands behind it. -/
theorem append_cons_inj {b : β} : ∀ {u v x y : List β}, b ∉ u → b ∉ v →
    u ++ b :: x = v ++ b :: y → u = v ∧ x = y
  | [], [], _, _, _, _, h => ⟨rfl, (List.cons.inj h).2⟩
  | [], c :: v, _, _, _, hv, h => absurd (List.cons.inj h).1 fun hbc => hv (by simp [hbc])
  | c :: u, [], _, _, hu, _, h => absurd (List.cons.inj h).1 fun hcb => hu (by simp [hcb])
  | c :: u, d :: v, x, y, hu, hv, h => by
    obtain ⟨rfl, hrest⟩ := List.cons.inj h
    rw [List.mem_cons, not_or] at hu hv
    obtain ⟨rfl, hxy⟩ := append_cons_inj hu.2 hv.2 hrest
    exact ⟨rfl, hxy⟩

/-- Whatever follows, what is written tells what it is written for, and where it ends. -/
def PrefixCode (write : α → List β) : Prop :=
  ∀ ⦃a b : α⦄ ⦃x y : List β⦄, write a ++ x = write b ++ y → a = b ∧ x = y

namespace PrefixCode

variable {write : α → List β} {x y : List β}

theorem inj (hw : PrefixCode write) {a b : α} (h : write a = write b) : a = b :=
  (hw (congrArg (· ++ []) h)).1

theorem flatMap_append_inj (hw : PrefixCode write) (hx : ∀ c w, x ≠ write c ++ w)
    (hy : ∀ c w, y ≠ write c ++ w) {as bs : List α}
    (h : as.flatMap write ++ x = bs.flatMap write ++ y) : as = bs ∧ x = y := by
  induction as generalizing bs with
  | nil =>
    rcases bs with _ | ⟨b, bs⟩
    · exact ⟨rfl, h⟩
    -- what ends the shorter row would begin with a code
    · exact absurd h (by simpa using hx b _)
  | cons a as ih =>
    rcases bs with _ | ⟨b, bs⟩
    · exact absurd h.symm (by simpa using hy a _)
    · simp only [List.flatMap_cons, List.append_assoc] at h
      obtain ⟨rfl, hrest⟩ := hw h
      obtain ⟨rfl, hxy⟩ := ih hrest
      exact ⟨rfl, hxy⟩

/-- What may be left out is a row of at most one. -/
theorem optional_append_inj (hw : PrefixCode write) (hx : ∀ c w, x ≠ write c ++ w)
    (hy : ∀ c w, y ≠ write c ++ w) {a b : Option α}
    (h : a.toList.flatMap write ++ x = b.toList.flatMap write ++ y) : a = b ∧ x = y := by
  obtain ⟨hab, hxy⟩ := hw.flatMap_append_inj hx hy h
  refine ⟨?_, hxy⟩
  rcases a with _ | a <;> rcases b with _ | b <;> simp_all

end PrefixCode

end RegexLiteral
