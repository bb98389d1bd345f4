import RegexLiteral.Drawing.Layout
import RegexLiteral.Proofs.Location.Located

/-!
# The ranges that are drawn

An empty range is drawn as the byte behind it. That is a character of the source unless a character
of several bytes stands there, and then the range that is drawn splits it. So an error can be drawn
over its source unless its range is empty and stands directly before such a character
(`Template.parse_error_drawn`). An error about a cut can stand there
(`Template.drawn_splits_character`).
-/

namespace RegexLiteral

namespace Span

variable {s : Span} {cs : List Char}

/-- The range is empty, and the character behind it takes several bytes. -/
def MeetsWide (s : Span) (cs : List Char) : Prop :=
  s.isEmpty ∧ ∃ before c after, cs = before ++ c :: after ∧ s.start = byteSize before
    ∧ 1 < c.utf8Size

theorem widened_of_not_isEmpty (h : ¬ s.isEmpty) (limit : Nat) : s.widened limit = s := if_neg h

theorem start_widened (s : Span) (limit : Nat) : (s.widened limit).start = s.start := by
  unfold widened
  split <;> rfl

/-- Behind `before` and one byte more there is no boundary if a wide character stands there. -/
theorem not_isBoundary_of_wide {before after : List Char} {c : Char} (hc : 1 < c.utf8Size) :
    ¬ IsBoundary (before ++ c :: after) (byteSize before + 1) := by
  rintro ⟨upto, rest, hcs, hsize⟩
  obtain ⟨more, rfl⟩ := prefix_of_byteSize_le hcs (by omega)
  rw [List.append_assoc] at hcs
  rw [byteSize_append] at hsize
  cases more with
  | nil => simp at hsize
  | cons d more =>
    obtain rfl : c = d := (List.cons.inj (List.append_cancel_left hcs)).1
    rw [byteSize_cons] at hsize
    omega

/-- An empty range is widened by one byte, except at the end of the text. -/
theorem widened_of_isEmpty {before after : List Char} {c : Char} (h : s.isEmpty)
    (hstart : s.start = byteSize before) :
    s.widened (byteSize (before ++ c :: after)) = ⟨byteSize before, byteSize before + 1⟩ := by
  have hpos := c.utf8Size_pos
  have hmin : min (byteSize before + 1) (byteSize (before ++ c :: after))
      = byteSize before + 1 := by
    rw [byteSize_append, byteSize_cons]
    omega
  rw [widened, if_pos h, hstart, hmin]

theorem MeetsWide.not_within_widened (h : s.MeetsWide cs) :
    ¬ (s.widened (byteSize cs)).Within cs := by
  obtain ⟨hempty, before, c, after, rfl, hstart, hc⟩ := h
  rw [widened_of_isEmpty hempty hstart]
  exact fun hw => not_isBoundary_of_wide hc hw.stop

theorem Within.widened (h : s.Within cs) (hwide : ¬ s.MeetsWide cs) :
    (s.widened (byteSize cs)).Within cs := by
  by_cases hempty : s.isEmpty
  · obtain ⟨before, after, rfl, hstart⟩ := h.start
    cases after with
    | nil =>
      have hmin : min (byteSize before + 1) (byteSize (before ++ [])) = byteSize before := by
        simp
      rw [Span.widened, if_pos hempty, hstart, hmin]
      exact within_empty (isBoundary_append before [])
    | cons c after =>
      have hpos := c.utf8Size_pos
      have hc : ¬ 1 < c.utf8Size := fun hc => hwide ⟨hempty, before, c, after, rfl, hstart, hc⟩
      have hsize : byteSize before + 1 = byteSize (before ++ [c]) := by
        rw [byteSize_append, byteSize_cons, byteSize_nil]
        omega
      rw [widened_of_isEmpty hempty hstart, hsize]
      simpa using within_append before [c] after
  · rwa [widened_of_not_isEmpty hempty]

theorem stop_le_widened (h : s.Within cs) :
    s.stop ≤ (s.widened (byteSize cs)).stop ∧ (s.widened (byteSize cs)).stop ≤ byteSize cs := by
  have hbounded := h.bounded
  unfold Span.widened
  split
  · rename_i hempty
    have : s.start = s.stop := eq_of_beq hempty
    simp only []
    omega
  · exact ⟨Nat.le_refl _, hbounded⟩

end Span

/-- How the error is drawn over the source. Its own range lies in the range drawn for it, and the
other ranges are drawn as they are. Only an empty range before a wide character cannot be drawn. -/
structure ParseError.Drawn (source : String) (e : ParseError) : Prop where
  start : (e.drawnSpans source).1.start = e.span.start
  stop_le : e.span.stop ≤ (e.drawnSpans source).1.stop
  bounded : (e.drawnSpans source).1.stop ≤ byteSize source.toList
  within_iff : (e.drawnSpans source).1.Within source.toList ↔ ¬ e.span.MeetsWide source.toList
  related : (e.drawnSpans source).2 = e.related.map Related.span
  relatedWithin : ∀ s ∈ (e.drawnSpans source).2, s.Within source.toList

/-- What an error is blamed on is not empty, so it is drawn as it is. -/
theorem ParseError.Located.related_drawn {source : String} {e : ParseError}
    (h : e.Located source.toList) : (e.drawnSpans source).2 = e.related.map Related.span := by
  by_cases hnil : e.related = []
  · simp [drawnSpans, hnil]
  · obtain ⟨-, r, hr, -, hblames⟩ := h.remark hnil
    obtain ⟨a, ha⟩ := ErrorKind.exists_slice_of_blames hblames
    obtain ⟨before, after, -, hspan⟩ := Span.exists_of_slice? ha
    have hne : ¬ r.span.isEmpty := by
      have := a.utf8Size_pos
      rw [hspan]
      simp [Span.isEmpty]
      omega
    simp [drawnSpans, hr, Span.widened_of_not_isEmpty hne]

namespace Template

theorem parse_error_drawn {t : Template} {production : Production} {fuel : Option Nat}
    {e : ParseError} (h : t.parse production fuel = .error (.error e)) : e.Drawn t.source := by
  have hlocated := (parse_error_explained h).located
  obtain ⟨hle, hbounded⟩ := Span.stop_le_widened hlocated.within
  refine ⟨Span.start_widened _ _, hle, hbounded, ?_, hlocated.related_drawn, fun s hs => ?_⟩
  · exact ⟨fun hw hwide => hwide.not_within_widened hw, hlocated.within.widened⟩
  · rw [hlocated.related_drawn] at hs
    obtain ⟨r, hr, rfl⟩ := List.mem_map.1 hs
    exact hlocated.relatedWithin r hr

/-- A class that is open at the end of the source, and a cut without a node before a letter. -/
theorem parse_error_drawn_samples :
    ParseError.Drawn "/[é" ⟨.unclosedClass, ⟨4, 4⟩, [⟨⟨1, 2⟩, .classOpened⟩]⟩
      ∧ ParseError.Drawn "/éa/" ⟨.noSubtree 0, .empty 3, []⟩ := by
  have hclass : (ofText "/[é").parse .pattern none
      = .error (.error ⟨.unclosedClass, ⟨4, 4⟩, [⟨⟨1, 2⟩, .classOpened⟩]⟩) := by decide +kernel
  have hcut : Template.parse ⟨"/é", ["a/"], []⟩ .pattern none
      = .error (.error ⟨.noSubtree 0, .empty 3, []⟩) := by decide +kernel
  exact ⟨parse_error_drawn hclass, parse_error_drawn hcut⟩

/-- A cut without a node, before a character of two bytes: what is drawn splits the character. -/
theorem drawn_splits_character :
    Template.parse ⟨"/", ["é/"], []⟩ .pattern none
        = .error (.error ⟨.noSubtree 0, .empty 1, []⟩)
      ∧ (ParseError.drawnSpans ⟨.noSubtree 0, .empty 1, []⟩ "/é/").1 = ⟨1, 2⟩
      ∧ ¬ (⟨1, 2⟩ : Span).Within "/é/".toList := by
  have hwide : ¬ IsBoundary (['/'] ++ 'é' :: ['/']) (byteSize ['/'] + 1) :=
    Span.not_isBoundary_of_wide (by decide)
  exact ⟨by decide +kernel, by decide +kernel, fun h => hwide h.stop⟩

end Template

end RegexLiteral
