import RegexLiteral.Proofs.Location.Remark

/-!
# Error locations

Whatever template is read, as a literal or as flags and with any fuel, an error points to ranges of
the source that split no character (`Template.parse_error_located`). A second range explains an
error only at the end of the source.
-/

namespace RegexLiteral

/-- Every range that the error points to lies in the source. A second range is there only if the
error is found at the end of the source, and then it is that of what is left open there. -/
structure ParseError.Located (cs : List Char) (e : ParseError) : Prop where
  within : e.span.Within cs
  relatedWithin : ∀ r ∈ e.related, r.span.Within cs
  remark : e.related ≠ [] → e.span = .empty (byteSize cs) ∧ ∃ r, e.related = [r]
    ∧ r.span.start < byteSize cs ∧ e.kind.Blames cs r.span

theorem ParseError.Explained.located {cs : List Char} {e : ParseError} (h : e.Explained cs) :
    e.Located cs := by
  cases h with
  | bare h =>
    refine ⟨h.within, fun r hr => ?_, fun hne => absurd h.related hne⟩
    rw [h.related] at hr
    exact absurd hr List.not_mem_nil
  | remark r related span blames =>
    obtain ⟨a, ha⟩ := ErrorKind.exists_slice_of_blames blames
    refine ⟨span ▸ Span.within_empty (isBoundary_byteSize cs), fun r' hr' => ?_, fun _ => ?_⟩
    · rw [related, List.mem_singleton] at hr'
      exact hr' ▸ Span.within_iff_slice?.2 ⟨_, ha⟩
    · refine ⟨span, r, related, ?_, blames⟩
      obtain ⟨before, after, rfl, hr⟩ := Span.exists_of_slice? ha
      have := a.utf8Size_pos
      rw [hr]
      simp only [byteSize_append, byteSize_cons, byteSize_nil]
      omega

namespace Template

theorem parse_error_explained {t : Template} {production : Production} {fuel : Option Nat}
    {e : ParseError} (h : t.parse production fuel = .error (.error e)) :
    e.Explained t.source.toList := by
  have hyields := Parser.production_explains production (Cursor.scans_cursor t fuel)
    (Cursor.regular_cursor t fuel) (show 2 ≤ lookAllowance.looks by decide)
  rcases run_of_yields hyields with ⟨n, c, hok, -⟩ | ⟨f, hf, hreports⟩
  · cases h.symm.trans hok
  · obtain rfl : Failure.error e = f := Except.error.inj (h.symm.trans hf)
    exact hreports

/-- Errors point to ranges of the source that split no character, and a second range is blamed only
for what is open where the source ends. -/
theorem parse_error_located {t : Template} {production : Production} {fuel : Option Nat}
    {e : ParseError} (h : t.parse production fuel = .error (.error e)) :
    e.Located t.source.toList :=
  (parse_error_explained h).located

/-- A class that is open behind an escaped bracket and a cut, a backslash behind a class that has
been closed, and a literal without its second slash. -/
theorem parse_error_located_open :
    ParseError.Located "/é[^\\]ü[".toList ⟨.unclosedClass, ⟨10, 10⟩, [⟨⟨3, 4⟩, .classOpened⟩]⟩
      ∧ ParseError.Located "/[é]\\".toList
        ⟨.unfinishedEscape, ⟨6, 6⟩, [⟨⟨5, 6⟩, .escapeStarted⟩]⟩
      ∧ ParseError.Located "/[]|é".toList
        ⟨.noClosingSlash, ⟨6, 6⟩, [⟨⟨0, 1⟩, .patternOpened⟩]⟩ := by
  let spliced : Template := ⟨"/é[^", ["\\]ü["], [.character (.ofChar 'a')]⟩
  have hclass : spliced.parse .pattern (some 9)
      = .error (.error ⟨.unclosedClass, ⟨10, 10⟩, [⟨⟨3, 4⟩, .classOpened⟩]⟩) := by decide +kernel
  have hescape : (ofText "/[é]\\").parse .pattern none
      = .error (.error ⟨.unfinishedEscape, ⟨6, 6⟩, [⟨⟨5, 6⟩, .escapeStarted⟩]⟩) := by
    decide +kernel
  have hslash : (ofText "/[]|é").parse .pattern none
      = .error (.error ⟨.noClosingSlash, ⟨6, 6⟩, [⟨⟨0, 1⟩, .patternOpened⟩]⟩) := by
    decide +kernel
  have hsource : "/é[^\\]ü[".toList = spliced.source.toList := by decide +kernel
  have hsource' : "/[é]\\".toList = (ofText "/[é]\\").source.toList := by decide +kernel
  have hsource'' : "/[]|é".toList = (ofText "/[]|é").source.toList := by decide +kernel
  rw [hsource, hsource', hsource'']
  exact ⟨parse_error_located hclass, parse_error_located hescape, parse_error_located hslash⟩

end Template

end RegexLiteral
