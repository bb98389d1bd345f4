import RegexLiteral.Span

/-!
# Positions between characters

A byte position is a boundary of a text if the text can be cut there. A range lies within a text if
it does not end before it starts and both its ends are boundaries. So it is the range of a part of
the text (`Span.within_iff_exists`), and those are the ranges that cut something out of it
(`Span.within_iff_slice?`).
-/

namespace RegexLiteral

theorem byteSize_pos {cs : List Char} (h : cs ≠ []) : 0 < byteSize cs := by
  obtain ⟨c, cs, rfl⟩ := List.exists_cons_of_ne_nil h
  have := c.utf8Size_pos
  rw [byteSize_cons]
  omega

/-- Of two beginnings of a text the one with fewer bytes is a beginning of the other. -/
theorem prefix_of_byteSize_le {u v w x : List Char} (h : u ++ w = v ++ x)
    (hle : byteSize u ≤ byteSize v) : ∃ more, v = u ++ more := by
  rcases List.append_eq_append_iff.1 h with ⟨m, rfl, -⟩ | ⟨m, rfl, -⟩
  · exact ⟨m, rfl⟩
  · by_cases hm : m = []
    · exact ⟨[], by simp [hm]⟩
    · have := byteSize_pos hm
      rw [byteSize_append] at hle
      omega

/-- The text can be cut at the position. -/
def IsBoundary (cs : List Char) (n : Nat) : Prop :=
  ∃ before after, cs = before ++ after ∧ n = byteSize before

section Boundary

variable {cs : List Char} {n : Nat}

theorem isBoundary_append (before after : List Char) :
    IsBoundary (before ++ after) (byteSize before) :=
  ⟨before, after, rfl, rfl⟩

theorem isBoundary_byteSize (cs : List Char) : IsBoundary cs (byteSize cs) :=
  ⟨cs, [], by simp, rfl⟩

theorem IsBoundary.le (h : IsBoundary cs n) : n ≤ byteSize cs := by
  obtain ⟨before, after, rfl, rfl⟩ := h
  simp

theorem exists_of_dropBytes? : ∀ {n : Nat} {cs rest : List Char},
    dropBytes? n cs = some rest → ∃ before, cs = before ++ rest ∧ n = byteSize before
  | 0, cs, rest, h => by
    obtain rfl : cs = rest := by simpa [dropBytes?] using h
    exact ⟨[], rfl, rfl⟩
  | n + 1, [], rest, h => by simp [dropBytes?] at h
  | n + 1, c :: cs, rest, h => by
    unfold dropBytes? at h
    split at h
    · rename_i hle
      obtain ⟨before, rfl, hn⟩ := exists_of_dropBytes? h
      exact ⟨c :: before, rfl, by rw [byteSize_cons]; omega⟩
    · simp at h

theorem exists_of_takeBytes? : ∀ {n : Nat} {cs part : List Char},
    takeBytes? n cs = some part → ∃ rest, cs = part ++ rest ∧ n = byteSize part
  | 0, cs, part, h => by
    obtain rfl : part = [] := by simpa [takeBytes?] using h.symm
    exact ⟨cs, rfl, rfl⟩
  | n + 1, [], part, h => by simp [takeBytes?] at h
  | n + 1, c :: cs, part, h => by
    unfold takeBytes? at h
    split at h
    · rename_i hle
      obtain ⟨taken, ht, rfl⟩ := Option.map_eq_some_iff.1 h
      obtain ⟨rest, rfl, hn⟩ := exists_of_takeBytes? ht
      exact ⟨rest, rfl, by rw [byteSize_cons]; omega⟩
    · simp at h

end Boundary

namespace Span

/-- The range lies in the text, and splits none of its characters. -/
structure Within (s : Span) (cs : List Char) : Prop where
  ordered : s.start ≤ s.stop
  bounded : s.stop ≤ byteSize cs
  start : IsBoundary cs s.start
  stop : IsBoundary cs s.stop

variable {s : Span} {cs : List Char} {n : Nat}

theorem within_append (before part after : List Char) :
    (⟨byteSize before, byteSize (before ++ part)⟩ : Span).Within (before ++ part ++ after) where
  ordered := by simp
  bounded := by simp
  start := ⟨before, part ++ after, by simp, rfl⟩
  stop := isBoundary_append _ _

theorem within_empty (h : IsBoundary cs n) : (empty n).Within cs :=
  ⟨Nat.le_refl n, h.le, h, h⟩

/-- The range is that of a part of the text. -/
theorem within_iff_exists : s.Within cs ↔ ∃ before part after,
    cs = before ++ part ++ after ∧ s = ⟨byteSize before, byteSize (before ++ part)⟩ := by
  constructor
  · rintro ⟨hle, -, ⟨before, after, hcs, hstart⟩, ⟨seen, rest, hcs', hstop⟩⟩
    obtain ⟨part, rfl⟩ := prefix_of_byteSize_le (hcs.symm.trans hcs') (by omega)
    exact ⟨before, part, rest, hcs', by rw [← hstart, ← hstop]⟩
  · rintro ⟨before, part, after, rfl, rfl⟩
    exact within_append before part after

theorem exists_of_slice? {part : List Char} (h : s.slice? cs = some part) : ∃ before after,
    cs = before ++ part ++ after ∧ s = ⟨byteSize before, byteSize (before ++ part)⟩ := by
  unfold slice? at h
  split at h
  · rename_i hle
    obtain ⟨rest, hdrop, htake⟩ := Option.bind_eq_some_iff.1 h
    obtain ⟨before, rfl, hstart⟩ := exists_of_dropBytes? hdrop
    obtain ⟨after, rfl, hsize⟩ := exists_of_takeBytes? htake
    refine ⟨before, after, by simp, ?_⟩
    have hstop : s.stop = byteSize (before ++ part) := by
      rw [byteSize_append]
      omega
    rw [← hstart, ← hstop]
  · simp at h

/-- The range cuts something out of the text. -/
theorem within_iff_slice? : s.Within cs ↔ ∃ part, s.slice? cs = some part := by
  rw [within_iff_exists]
  constructor
  · rintro ⟨before, part, after, rfl, rfl⟩
    exact ⟨part, slice?_append before part after⟩
  · rintro ⟨part, h⟩
    obtain ⟨before, after, hcs, hs⟩ := exists_of_slice? h
    exact ⟨before, part, after, hcs, hs⟩

/-- From the start of one range to the end of a later one. -/
theorem Within.upto {t : Span} (hs : s.Within cs) (ht : t.Within cs) (hle : s.start ≤ t.stop) :
    (⟨s.start, t.stop⟩ : Span).Within cs :=
  ⟨hle, ht.bounded, hs.start, ht.stop⟩

end Span

end RegexLiteral
