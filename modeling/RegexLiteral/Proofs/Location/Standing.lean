import RegexLiteral.Proofs.Location.Quiet
import RegexLiteral.Proofs.Location.Scan

/-!
# Where a cursor stands

While a literal is read, the scan of what has been read and the delimiters that wait for their
partner agree: the innermost of these is the bracket of the class that the scan has open, and
outside a class it is the opening slash (`Cursor.Stands`). So at the end of the source the innermost
delimiter is what has been left open there. This module says what an error may be blamed on
(`ErrorKind.Blames`), and what a cursor keeps while it moves on.
-/

namespace RegexLiteral

/-- The bracket that began the class still open at the end of the source: every closing bracket
behind it is the code of a backslash. -/
structure Span.IsOpenBracket (s : Span) (cs : List Char) : Prop where
  slice : s.slice? cs = some ['[']
  bracket : (Scan.of cs).bracket = some s.start
  unclosed : ∀ before after, cs = before ++ ']' :: after → s.stop ≤ byteSize before →
    EndsUnpaired before

/-- The slash that the source begins with. -/
structure Span.IsFirstSlash (s : Span) (cs : List Char) : Prop where
  slice : s.slice? cs = some ['/']
  eq : s = ⟨0, 1⟩

/-- The backslash that the source ends with, if it is not itself the code of one. -/
structure Span.IsLastBackslash (s : Span) (cs : List Char) : Prop where
  slice : s.slice? cs = some ['\\']
  stop : s.stop = byteSize cs
  unpaired : EndsUnpaired cs

/-- What an error of the kind at the end of the source is blamed on. -/
def ErrorKind.Blames (cs : List Char) : ErrorKind → Span → Prop
  | .characterClass, s => s.IsOpenBracket cs
  | .delimiter, s => s.IsFirstSlash cs ∨ s.IsLastBackslash cs
  | _, _ => False

/-- What is blamed is a single character. -/
theorem ErrorKind.exists_slice_of_blames {cs : List Char} {k : ErrorKind} {s : Span}
    (h : k.Blames cs s) : ∃ a, s.slice? cs = some [a] := by
  unfold Blames at h
  split at h
  · exact ⟨'[', h.slice⟩
  · exact h.elim (fun h => ⟨'/', h.slice⟩) fun h => ⟨'\\', h.slice⟩
  · exact h.elim

/-- The error points to one range, or it is found at the end of the source and points to what is
left open there. -/
inductive ParseError.Explained (cs : List Char) (e : ParseError) : Prop
  | bare (h : e.Bare cs)
  | remark (r : Related) (related : e.related = [r]) (span : e.span = .empty (byteSize cs))
    (blames : e.kind.Blames cs r.span)

namespace Cursor

variable {c c' : Cursor} {cs : List Char} {s : Scan} {b : Option Nat} {used rest : List Item}

/-- What has been read of the source leaves the scan at `s`. -/
structure Scans (c : Cursor) (cs : List Char) (s : Scan) : Prop where
  source : c.source = cs
  scanned : ∃ read, cs = read ++ c.lexemes.flatMap Lexeme.chars
    ∧ Lexeme.Tiles (byteSize read) c.lexemes ∧ Scan.of read = s

theorem scans_cursor (t : Template) (fuel : Option Nat) :
    (t.cursor fuel).Scans t.source.toList ⟨0, none, false⟩ where
  source := rfl
  scanned := ⟨[], t.flatMap_chars_lexemes.symm, t.tiles_lexemes, rfl⟩

theorem Scans.toIn (h : c.Scans cs s) : c.In cs := by
  obtain ⟨read, hcs, ht, -⟩ := h.scanned
  exact ⟨h.source, read, h.source.trans hcs, ht⟩

theorem Scans.delimit (h : c.Scans cs s) (ds : List OpenDelimiter) :
    Scans { c with delimiters := ds } cs s :=
  ⟨h.source, h.scanned⟩

theorem Scans.reaches (h : c.Scans cs s) (hr : c.Reaches used c') :
    c'.Scans cs ((used.flatMap Item.chars).foldl Scan.step s) where
  source := hr.source.trans h.source
  scanned := by
    obtain ⟨read, hcs, ht, hscan⟩ := h.scanned
    obtain ⟨taken, hl, hchars⟩ := hr.flatMap_chars
    rw [hl] at hcs ht
    refine ⟨read ++ used.flatMap Item.chars, ?_, ?_, ?_⟩
    · rw [← hchars, hcs, List.flatMap_append, List.append_assoc]
    · rw [byteSize_append, ← hchars]
      exact ((Lexeme.tiles_append _ _ _).1 ht).2
    · rw [Scan.of_append, hscan]

/-- Before anything has been read the whole source is left. -/
theorem Scans.eq_chars (h : c.Scans cs ⟨0, none, false⟩) : cs = c.lexemes.flatMap Lexeme.chars := by
  obtain ⟨read, hcs, -, hscan⟩ := h.scanned
  have hsize : 0 = byteSize read := by rw [← Scan.size_of, hscan]
  by_cases hread : read = []
  · rw [hcs, hread, List.nil_append]
  · have := byteSize_pos hread
    omega

/-- The next character lies where the scan has come to. -/
theorem Scans.span_eq {a : Char} (h : c.Scans cs s) (hc : c.items = .char a :: rest) :
    c.span = ⟨s.size, s.size + a.utf8Size⟩ := by
  obtain ⟨read, hcs, ht, hscan⟩ := h.scanned
  have hstart : c.span.start = s.size := by
    rw [span_start (h.source.trans hcs) ht, ← hscan, Scan.size_of]
  have hstop := span_stop hc
  rw [hstart, extent_cons, extent_nil] at hstop
  rw [← hstart, ← show c.span.stop = c.span.start + a.utf8Size by rw [hstop, hstart]; rfl]

/-- At the end of the source everything has been scanned. -/
theorem Scans.ends (h : c.Scans cs s) (hk : c.kindAt 0 = .eof) :
    c.span = .empty (byteSize cs) ∧ Scan.of cs = s := by
  have hl : c.lexemes = [] := items_eq_nil_iff.1 (kindAt_eq_eof hk)
  obtain ⟨read, hcs, -, hscan⟩ := h.scanned
  obtain rfl : cs = read := by simpa [hl] using hcs
  exact ⟨by rw [span, hl, stop, h.source], hscan⟩

/-- The delimiter that waits for its partner inside the class begun at `p`, or outside a class. -/
def opener : Option Nat → OpenDelimiter
  | some p => ⟨.bracketOpen, ⟨p, p + 1⟩⟩
  | none => ⟨.slash, ⟨0, 1⟩⟩

/-- The cursor stands in a literal, in the class begun at `b` or outside a class, and no backslash
waits for its code. -/
structure Stands (c : Cursor) (cs : List Char) (b : Option Nat) : Prop extends c.Regular where
  scans : ∃ n, c.Scans cs ⟨n, b, false⟩
  slash : cs.head? = some '/'
  delimiter : c.delimiters.head? = some (opener b)

theorem Stands.toIn (h : c.Stands cs b) : c.In cs := by
  obtain ⟨n, hscans⟩ := h.scans
  exact hscans.toIn

theorem Stands.looked (h : c.Stands cs b) : c.looked.Stands cs b := by
  obtain ⟨n, hscans⟩ := h.scans
  exact ⟨⟨h.placed, h.delimited⟩, ⟨n, hscans.source, hscans.scanned⟩, h.slash, h.delimiter⟩

/-- What leaves nothing open can be read over. -/
theorem Stands.reaches (h : c.Stands cs b) (hr : c.Reaches used c')
    (hs : Scan.Steady b (used.flatMap Item.chars)) : c'.Stands cs b where
  toRegular := h.toRegular.reaches hr
  scans := by
    obtain ⟨n, hscans⟩ := h.scans
    exact ⟨_, hs n ▸ hscans.reaches hr⟩
  slash := h.slash
  delimiter := by rw [hr.delimiters]; exact h.delimiter

theorem Stands.mayFail (h : c.Stands cs b) :
    c.MayFail (Failure.Reports (ParseError.Explained cs)) where
  terminator _ := .bare ⟨h.toIn.within_span, rfl⟩
  fuel _ := trivial

/-- A bracket outside a class begins one, and waits for its partner. -/
theorem Stands.openClass (h : c.Stands cs none)
    (hr : Reaches { c with delimiters := ⟨.bracketOpen, c.span⟩ :: c.delimiters } [.char '['] c') :
    ∃ p, c'.Stands cs (some p) := by
  obtain ⟨n, hscans⟩ := h.scans
  refine ⟨n, ⟨?_, ?_⟩, ⟨n + 1, (hscans.delimit _).reaches hr⟩, h.slash, ?_⟩
  · exact (Placed.reaches (c := { c with delimiters := _ :: _ }) h.placed hr).1
  · rw [hr.delimiters]
    rintro d (_ | ⟨_, hd⟩)
    · exact .inr rfl
    · exact h.delimited d hd
  · rw [hr.delimiters, hscans.span_eq hr.items]
    rfl

theorem Stands.ends (h : c.Stands cs b) (hk : c.kindAt 0 = .eof) :
    c.span = .empty (byteSize cs) ∧ (Scan.of cs).bracket = b := by
  obtain ⟨n, hscans⟩ := h.scans
  obtain ⟨hspan, hscan⟩ := hscans.ends hk
  exact ⟨hspan, by rw [hscan]⟩

/-- Outside a class only the opening slash waits for its partner. -/
theorem Stands.isFirstSlash (h : c.Stands cs none) : (⟨0, 1⟩ : Span).IsFirstSlash cs := by
  obtain ⟨rest, rfl⟩ := List.head?_eq_some_iff.1 h.slash
  exact ⟨Span.slice?_append [] ['/'] rest, rfl⟩

end Cursor

theorem Scan.isOpenBracket {cs : List Char} {n : Nat} (h : (Scan.of cs).bracket = some n) :
    (⟨n, n + 1⟩ : Span).IsOpenBracket cs := by
  obtain ⟨before, after, rfl, rfl, hb, he, hclose⟩ := Scan.exists_of_bracket h
  have hcut : before ++ '[' :: after = before ++ ['['] ++ after := by simp
  have hsize : byteSize before + 1 = byteSize (before ++ ['[']) := by rw [byteSize_append]; rfl
  refine ⟨?_, h, fun u v huv hle => ?_⟩
  · rw [hcut, hsize]
    exact Span.slice?_append _ _ _
  · -- The closing bracket stands behind the opening one.
    rw [hsize] at hle
    rw [hcut] at huv
    obtain ⟨more, rfl⟩ := prefix_of_byteSize_le huv hle
    rw [List.append_assoc _ more] at huv
    have := hclose more v (List.append_cancel_left huv)
    simpa using this

theorem Scan.isLastBackslash {before : List Char} (h : (Scan.of before).escaping = false) :
    (⟨byteSize before, byteSize before + 1⟩ : Span).IsLastBackslash (before ++ ['\\']) := by
  have hsize : byteSize before + 1 = byteSize (before ++ ['\\']) := by
    rw [byteSize_append]
    rfl
  refine ⟨?_, hsize, ?_⟩
  · rw [hsize]
    simpa using Span.slice?_append before ['\\'] []
  · rw [← escaping_iff, of_concat, escaping_step, h]
    rfl

end RegexLiteral
