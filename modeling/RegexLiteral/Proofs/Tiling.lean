import RegexLiteral.Proofs.Item

/-!
# Lexemes tile the source

The lexemes of a template follow each other without a gap, from the beginning of the source to its
end (`tiles_lexemes`), and their characters are the source (`flatMap_chars_lexemes`). So at a cursor
whose lexemes are the last ones of its source, the range of the lexemes next in turn cuts out their
characters (`Cursor.Placed.slice`).
-/

namespace RegexLiteral

namespace Lexeme

/-- The first lexeme starts at `start`, and every other where the one before it stops. -/
def Tiles : Nat → List Lexeme → Prop
  | _, [] => True
  | start, l :: ls => l.start = start ∧ Tiles l.stop ls

theorem tiles_append : ∀ (start : Nat) (a b : List Lexeme),
    Tiles start (a ++ b) ↔ Tiles start a ∧ Tiles (start + byteSize (a.flatMap chars)) b
  | start, [], b => by simp [Tiles]
  | start, l :: a, b => by
    rw [List.cons_append, Tiles, Tiles, tiles_append, and_assoc, List.flatMap_cons,
      byteSize_append]
    refine and_congr_right fun hl => ?_
    rw [stop, hl, Nat.add_assoc]

theorem flatMap_chars_prepend (start : Nat) (c : Char) (after : List Lexeme) :
    (prepend start c after).flatMap chars = c :: after.flatMap chars := by
  unfold prepend
  split
  · split <;> rfl
  · rfl

theorem tiles_prepend {start : Nat} {c : Char} {after : List Lexeme}
    (h : Tiles (start + c.utf8Size) after) : Tiles start (prepend start c after) := by
  unfold prepend
  split
  · split
    · obtain ⟨hs, ht⟩ := h
      refine ⟨rfl, ?_⟩
      rw [stop] at ht ⊢
      simp only [chars, Piece.chars, byteSize_cons] at hs ht ⊢
      rwa [hs, Nat.add_assoc] at ht
    · exact ⟨rfl, by simpa [stop, chars, Piece.chars] using h⟩
  · exact ⟨rfl, by simpa [stop, chars, Piece.chars] using h⟩

theorem flatMap_chars_ofSegment : ∀ (start : Nat) (cs : List Char),
    (ofSegment start cs).flatMap chars = cs
  | _, [] => rfl
  | start, c :: cs => by rw [ofSegment, flatMap_chars_prepend, flatMap_chars_ofSegment]

theorem tiles_ofSegment : ∀ (start : Nat) (cs : List Char), Tiles start (ofSegment start cs)
  | _, [] => trivial
  | _, _ :: cs => tiles_prepend (tiles_ofSegment _ cs)

theorem flatMap_chars_ofSegments : ∀ (start : Nat) (ss : List String),
    (ofSegments start ss).flatMap chars = ss.flatMap String.toList
  | _, [] => rfl
  | start, s :: ss => by
    rw [ofSegments, List.cons_append, List.flatMap_cons, List.flatMap_append,
      flatMap_chars_ofSegment, flatMap_chars_ofSegments]
    rfl

theorem tiles_ofSegments : ∀ (start : Nat) (ss : List String), Tiles start (ofSegments start ss)
  | _, [] => trivial
  | start, s :: ss => by
    refine ⟨rfl, ?_⟩
    rw [show stop ⟨start, .interpolation⟩ = start from rfl]
    refine (tiles_append _ _ _).2 ⟨tiles_ofSegment start s.toList, ?_⟩
    rw [flatMap_chars_ofSegment]
    exact tiles_ofSegments _ ss

theorem stopOf_eq : ∀ {start : Nat} {ls : List Lexeme}, Tiles start ls →
    stopOf start ls = start + byteSize (ls.flatMap chars)
  | _, [], _ => rfl
  | start, [l], h => by
    rw [List.flatMap_singleton, ← h.1]
    rfl
  | start, l :: m :: ls, h => by
    have hs : stopOf start (l :: m :: ls) = stopOf l.stop (m :: ls) := by
      simp [stopOf, List.getLast?_cons]
    have hf : (l :: m :: ls).flatMap chars = l.chars ++ (m :: ls).flatMap chars := rfl
    rw [hs, stopOf_eq h.2, hf, byteSize_append, ← Nat.add_assoc, stop, h.1]

theorem start_le_stop (l : Lexeme) : l.start ≤ l.stop := Nat.le_add_right _ _

end Lexeme

namespace Template

theorem toList_source (t : Template) : t.source.toList = t.segments.flatMap String.toList := by
  simp [source]

/-- Nothing is lost in the lexemes. -/
theorem flatMap_chars_lexemes (t : Template) :
    t.lexemes.flatMap Lexeme.chars = t.source.toList := by
  rw [lexemes, List.flatMap_append, Lexeme.flatMap_chars_ofSegment,
    Lexeme.flatMap_chars_ofSegments, toList_source]
  rfl

theorem tiles_lexemes (t : Template) : Lexeme.Tiles 0 t.lexemes := by
  refine (Lexeme.tiles_append _ _ _).2 ⟨Lexeme.tiles_ofSegment 0 _, ?_⟩
  rw [Lexeme.flatMap_chars_ofSegment, Nat.zero_add]
  exact Lexeme.tiles_ofSegments _ _

end Template

/-- The bytes of the items. -/
def extent (is : List Item) : Nat := byteSize (is.flatMap Item.chars)

@[simp] theorem extent_nil : extent [] = 0 := rfl

@[simp] theorem extent_cons (i : Item) (is : List Item) :
    extent (i :: is) = byteSize i.chars + extent is := by
  rw [extent, List.flatMap_cons, byteSize_append, extent]

@[simp] theorem extent_append (is js : List Item) : extent (is ++ js) = extent is + extent js := by
  rw [extent, List.flatMap_append, byteSize_append, extent, extent]

theorem extent_char_pos (c : Char) (is : List Item) : 0 < extent (.char c :: is) := by
  have hc := c.utf8Size_pos
  rw [extent_cons, Item.chars, byteSize_cons]
  omega

@[simp] theorem flatMap_chars_map_char (cs : List Char) :
    (cs.map Item.char).flatMap Item.chars = cs := by
  induction cs with
  | nil => rfl
  | cons c cs ih => rw [List.map_cons, List.flatMap_cons, ih]; rfl

@[simp] theorem extent_map_char (cs : List Char) : extent (cs.map .char) = byteSize cs := by
  rw [extent, flatMap_chars_map_char]

namespace Cursor

variable {c c' : Cursor} {used : List Item}

/-- The lexemes that are left are the last ones of the source. -/
def Placed (c : Cursor) : Prop :=
  ∃ read, c.source = read ++ c.lexemes.flatMap Lexeme.chars ∧
    Lexeme.Tiles (byteSize read) c.lexemes

theorem placed_cursor (t : Template) (fuel : Option Nat) : (t.cursor fuel).Placed :=
  ⟨[], (Template.flatMap_chars_lexemes t).symm, Template.tiles_lexemes t⟩

/-- The cursor stands where what is left begins. -/
theorem span_start {read : List Char} (hs : c.source = read ++ c.lexemes.flatMap Lexeme.chars)
    (ht : Lexeme.Tiles (byteSize read) c.lexemes) : c.span.start = byteSize read := by
  rw [span]
  cases hl : c.lexemes with
  | nil =>
    rw [hl, List.flatMap_nil, List.append_nil] at hs
    rw [stop, hs]
    rfl
  | cons l ls =>
    rw [hl] at ht
    exact ht.1

theorem Placed.stopOf_eq (h : c.Placed) {taken rest : List Lexeme}
    (hl : c.lexemes = taken ++ rest) : Lexeme.stopOf c.span.start taken
      = c.span.start + byteSize (taken.flatMap Lexeme.chars) := by
  obtain ⟨read, hs, ht⟩ := h
  rw [span_start hs ht]
  rw [hl] at ht
  exact Lexeme.stopOf_eq ((Lexeme.tiles_append _ _ _).1 ht).1

/-- The range of the next lexemes cuts out their characters. -/
theorem Placed.slice?_eq (h : c.Placed) {taken rest : List Lexeme}
    (hl : c.lexemes = taken ++ rest) :
    c.span.start ≤ Lexeme.stopOf c.span.start taken
      ∧ (⟨c.span.start, Lexeme.stopOf c.span.start taken⟩ : Span).slice? c.source
        = some (taken.flatMap Lexeme.chars) := by
  rw [h.stopOf_eq hl]
  refine ⟨Nat.le_add_right _ _, ?_⟩
  obtain ⟨read, hs, ht⟩ := h
  rw [span_start hs ht, hs, hl, List.flatMap_append, ← List.append_assoc, ← byteSize_append]
  exact Span.slice?_append _ _ _

/-- What has been used up has the characters of its lexemes. -/
theorem Reaches.flatMap_chars (hr : c.Reaches used c') : ∃ taken, c.lexemes = taken ++ c'.lexemes
    ∧ taken.flatMap Lexeme.chars = used.flatMap Item.chars := by
  obtain ⟨taken, hl, hlen⟩ := hr.lexemes
  refine ⟨taken, hl, ?_⟩
  have hmap := map_chars_itemsOf c.lexemes c.substitutions
  rw [show itemsOf c.lexemes c.substitutions = used ++ c'.items from hr.items, hl,
    List.map_append, List.map_append] at hmap
  have htaken := (List.append_inj hmap (by rw [List.length_map, List.length_map, hlen])).1
  rw [List.flatMap_def, List.flatMap_def, htaken]

/-- A cursor that is reached is placed as well, behind what has been used up. -/
theorem Placed.reaches (h : c.Placed) (hr : c.Reaches used c') :
    c'.Placed ∧ c'.span.start = c.span.start + extent used := by
  obtain ⟨read, hs, ht⟩ := h
  obtain ⟨taken, hl, hchars⟩ := hr.flatMap_chars
  have hstart := span_start hs ht
  rw [hl] at hs ht
  have hs' : c'.source = (read ++ taken.flatMap Lexeme.chars)
      ++ c'.lexemes.flatMap Lexeme.chars := by
    rw [hr.source, hs, List.flatMap_append, List.append_assoc]
  have ht' := ((Lexeme.tiles_append _ _ _).1 ht).2
  rw [← byteSize_append] at ht'
  refine ⟨⟨_, hs', ht'⟩, ?_⟩
  rw [hstart, span_start hs' ht', byteSize_append, hchars, extent]

theorem Placed.start_le (h : c.Placed) (hr : c.Reaches used c') : c.span.start ≤ c'.span.start := by
  rw [(h.reaches hr).2]
  exact Nat.le_add_right _ _

theorem span_start_le_stop (c : Cursor) : c.span.start ≤ c.span.stop := by
  rw [span]
  split
  · exact Lexeme.start_le_stop _
  · exact Nat.le_refl _

/-- What a cursor is like in every run: it is placed, and only slashes and brackets are open. -/
structure Regular (c : Cursor) : Prop where
  placed : c.Placed
  delimited : ∀ d ∈ c.delimiters, d.kind = .slash ∨ d.kind = .bracketOpen

theorem regular_cursor (t : Template) (fuel : Option Nat) : (t.cursor fuel).Regular :=
  ⟨placed_cursor t fuel, by simp [Template.cursor]⟩

theorem Regular.reaches (h : c.Regular) (hr : c.Reaches used c') : c'.Regular :=
  ⟨(h.placed.reaches hr).1, by rw [hr.delimiters]; exact h.delimited⟩

end Cursor

end RegexLiteral
