import RegexLiteral.Proofs.Looks

/-!
# The parser keeps its own rules

No run of the parser ends in a fault, and far fewer looks would do than are allowed. The source is
cut between characters only: into the segments of the template first, and then into the lexemes.
-/

namespace RegexLiteral

namespace Template

/-- A lexeme has the characters that its range cuts out of the source. -/
theorem slice?_lexeme {t : Template} {l : Lexeme} (h : l ∈ t.lexemes) :
    l.span.slice? t.source.toList = some l.chars := by
  obtain ⟨a, b, hab⟩ := List.append_of_mem h
  have ht := t.tiles_lexemes
  have hs := t.flatMap_chars_lexemes
  rw [hab] at ht hs
  have hstart : l.start = byteSize (a.flatMap Lexeme.chars) := by
    have hl := ((Lexeme.tiles_append 0 a (l :: b)).1 ht).2.1
    rwa [Nat.zero_add] at hl
  have hspan : l.span = ⟨byteSize (a.flatMap Lexeme.chars),
      byteSize (a.flatMap Lexeme.chars ++ l.chars)⟩ := by
    rw [Lexeme.span, Lexeme.stop, hstart, byteSize_append]
  rw [hspan, ← hs, List.flatMap_append, List.flatMap_cons, ← List.append_assoc]
  exact Span.slice?_append _ _ _

/-- The ranges between the cuts. -/
def segmentSpans (t : Template) : List Span :=
  List.zipWith Span.mk (0 :: t.boundaries) (t.boundaries ++ [byteSize t.source.toList])

theorem slice?_segments : ∀ (before first : List Char) (later : List String) (cs : List Char),
    cs = before ++ (first ++ later.flatMap String.toList) →
    (List.zipWith Span.mk (byteSize before :: startsFrom (byteSize (before ++ first)) later)
      (startsFrom (byteSize (before ++ first)) later ++ [byteSize cs])).map (·.slice? cs)
      = some first :: later.map fun s => some s.toList
  | before, first, [], cs, h => by
    rw [List.flatMap_nil, List.append_nil] at h
    have hs := Span.slice?_append before first []
    rw [List.append_nil, ← h] at hs
    simp only [startsFrom, List.nil_append, List.zipWith_cons_cons, List.zipWith_nil_left,
      List.map_cons, List.map_nil, hs]
  | before, first, s :: later, cs, h => by
    have hs := Span.slice?_append before first ((s :: later).flatMap String.toList)
    rw [List.append_assoc, ← h] at hs
    have ih := slice?_segments (before ++ first) s.toList later cs
      (by rw [h, List.flatMap_cons, List.append_assoc])
    rw [byteSize_append (before ++ first)] at ih
    rw [startsFrom, List.cons_append, List.zipWith_cons_cons, List.map_cons, List.map_cons, hs, ih]

theorem slice?_segmentSpans (t : Template) :
    t.segmentSpans.map (·.slice? t.source.toList) = t.segments.map fun s => some s.toList :=
  slice?_segments [] t.first.toList t.later t.source.toList t.toList_source

/-- Every run ends with a node, with an error of the source or with the fuel used up, and never in a
fault. It would end so with any allowance of looks, down to twelve of them, so fewer than the 256 of
`lookAllowance` are taken between two lexemes, and behind the last one. The source is cut between
characters wherever it is cut. -/
theorem parse_total (t : Template) (production : Production) (fuel : Option Nat) :
    ((∃ n, t.parse production fuel = .ok n) ∨ (∃ e, t.parse production fuel = .error (.error e))
        ∨ t.parse production fuel = .error .outOfFuel)
      ∧ (∀ allowance : LookAllowance,
        t.parseAllowing allowance production fuel = t.parse production fuel)
      ∧ t.segmentSpans.map (·.slice? t.source.toList) = t.segments.map (fun s => some s.toList)
      ∧ ∀ l ∈ t.lexemes, l.span.slice? t.source.toList = some l.chars := by
  refine ⟨?_, fun allowance => t.parseAllowing_eq allowance production fuel,
    t.slice?_segmentSpans, fun l hl => slice?_lexeme hl⟩
  cases h : t.parse production fuel with
  | ok n => exact .inl ⟨n, rfl⟩
  | error e =>
    have he := parse_isProper h
    cases e with
    | error e => exact .inr (.inl ⟨e, rfl⟩)
    | outOfFuel => exact .inr (.inr rfl)
    | fault f => exact he.elim

end Template

end RegexLiteral
