import RegexLiteral.Proofs.Braces
import RegexLiteral.Proofs.Location.Boundary
import RegexLiteral.Proofs.Pairing

/-!
# How far a source is free of line terminators

No line terminator is ever taken, so behind the items that have been taken the source is free of
them up to the cursor (`Cursor.Behind.clearUpTo_span`), and the first one is what a cursor stands at
that cannot move on. Line terminators right behind embedded flags are a case of their own
(`Template.FlagsBefore`). A cursor that has put in no flags does not stand there
(`Cursor.Behind.not_flagsBefore`).
-/

namespace RegexLiteral

namespace Template

/-- No line terminator begins before `stop`. -/
def ClearUpTo (t : Template) (stop : Nat) : Prop :=
  ∀ before x after, t.source.toList = before ++ x :: after → byteSize before < stop →
    ¬ isLineTerminator x

/-- Line terminators stand at `position`, right behind a cut whose node is flags. -/
def FlagsBefore (t : Template) (position : Nat) : Prop :=
  ∃ before f i after, itemsOf t.lexemes t.substitutions = before ++ .node (.flags f) :: i :: after
    ∧ i.kind = .garbage ∧ position = extent before

end Template

theorem Item.not_isLineTerminator {i : Item} (hi : i.kind ≠ .garbage) {x : Char}
    (hx : x ∈ i.chars) : ¬ isLineTerminator x := by
  cases i with
  | char c =>
    obtain rfl := List.mem_singleton.1 hx
    exact fun h => hi (Kind.ofChar_eq_garbage_iff.2 h)
  | terminators run => exact absurd rfl hi
  | node n => cases hx
  | missing => cases hx

theorem flatMap_chars_itemsOf (ls : List Lexeme) (ns : List Node) :
    (itemsOf ls ns).flatMap Item.chars = ls.flatMap Lexeme.chars := by
  rw [List.flatMap_def, map_chars_itemsOf, ← List.flatMap_def]

namespace Template

variable {t : Template} {used rest : List Item}

theorem toList_source_of_items (h : itemsOf t.lexemes t.substitutions = used ++ rest) :
    t.source.toList = used.flatMap Item.chars ++ rest.flatMap Item.chars := by
  rw [← t.flatMap_chars_lexemes, ← flatMap_chars_itemsOf _ t.substitutions, h, List.flatMap_append]

/-- The source is free of line terminators as far as its first items are. -/
theorem clearUpTo_of_items (h : itemsOf t.lexemes t.substitutions = used ++ rest)
    (hclean : ∀ i ∈ used, i.kind ≠ .garbage) : t.ClearUpTo (extent used) := by
  intro before x after hsource hlt
  rw [toList_source_of_items h] at hsource
  obtain ⟨more, hmore⟩ := prefix_of_byteSize_le hsource.symm (Nat.le_of_lt hlt)
  cases more with
  | nil =>
    rw [extent, hmore, List.append_nil] at hlt
    exact absurd hlt (Nat.lt_irrefl _)
  | cons y more =>
    rw [hmore, List.append_assoc] at hsource
    obtain rfl : y = x := (List.cons.inj (List.append_cancel_left hsource)).1
    have hmem : y ∈ used.flatMap Item.chars := by simp [hmore]
    obtain ⟨i, hi, hy⟩ := List.mem_flatMap.1 hmem
    exact i.not_isLineTerminator (hclean i hi) hy

end Template

namespace Cursor

/-- The cursor stands behind the items in `used`, with which the template begins. -/
structure Behind (t : Template) (used : List Item) (c : Cursor) : Prop extends c.PartOf t where
  items : itemsOf t.lexemes t.substitutions = used ++ c.items
  clean : ∀ i ∈ used, i.kind ≠ .garbage

variable {t : Template} {c c' : Cursor} {used used' u : List Item}

theorem behind_cursor (t : Template) (fuel : Option Nat) : (t.cursor fuel).Behind t [] :=
  ⟨partOf_cursor t fuel, rfl, by simp⟩

namespace Behind

/-- Only what is left to be read matters. -/
theorem congr (h : c.Behind t used) (hs : c'.source = c.source) (hl : c'.lexemes = c.lexemes)
    (hn : c'.substitutions = c.substitutions) : c'.Behind t used where
  source := hs.trans h.source
  lexemes := hl ▸ h.lexemes
  substitutions := hn ▸ h.substitutions
  items := by rw [h.items, Cursor.items, Cursor.items, hl, hn]
  clean := h.clean

theorem looked (h : c.Behind t used) : c.looked.Behind t used := h.congr rfl rfl rfl

theorem reaches (h : c.Behind t used) (hr : c.Reaches u c') : c'.Behind t (used ++ u) where
  toPartOf := h.toPartOf.reaches hr
  items := by rw [h.items, hr.items, List.append_assoc]
  clean i hi := (List.mem_append.1 hi).elim (h.clean i) (hr.clean i)

theorem source_eq (h : c.Behind t used) :
    c.source = used.flatMap Item.chars ++ c.lexemes.flatMap Lexeme.chars := by
  rw [h.source, Template.toList_source_of_items h.items, Cursor.items, flatMap_chars_itemsOf]

theorem span_start (h : c.Behind t used) : c.span.start = extent used := by
  obtain ⟨read, hs, ht⟩ := h.placed
  rw [Cursor.span_start hs ht, extent, List.append_cancel_right (hs.symm.trans h.source_eq)]

/-- The lexemes between two cursors stop where the second one stands. -/
theorem stopOf_eq (h : c.Behind t used) (h' : c'.Behind t used') {ls : List Lexeme}
    (hl : c.lexemes = ls ++ c'.lexemes) : Lexeme.stopOf c.span.start ls = extent used' := by
  have hchars : used.flatMap Item.chars ++ ls.flatMap Lexeme.chars = used'.flatMap Item.chars := by
    have hsource := h.source.trans h'.source.symm
    rw [h.source_eq, h'.source_eq, hl, List.flatMap_append, ← List.append_assoc] at hsource
    exact List.append_cancel_right hsource
  rw [h.placed.stopOf_eq hl, h.span_start, extent, extent, ← byteSize_append, hchars]

theorem clearUpTo (h : c.Behind t used) : t.ClearUpTo (extent used) :=
  Template.clearUpTo_of_items h.items h.clean

/-- Unless the cursor stands at a line terminator, the source is free of them up to the end of the
next lexeme. -/
theorem clearUpTo_span (h : c.Behind t used) (hk : c.kindAt 0 ≠ .garbage) :
    t.ClearUpTo c.span.stop := by
  cases hc : c.items with
  | nil =>
    have hl : c.lexemes = [] := items_eq_nil_iff.1 hc
    have hstop : c.span.stop = extent used := by
      rw [← h.span_start, span, hl]
      rfl
    rw [hstop]
    exact h.clearUpTo
  | cons i rest =>
    have hstop : c.span.stop = extent (used ++ [i]) := by
      rw [span_stop hc, h.span_start, extent_append]
    have hitems : itemsOf t.lexemes t.substitutions = (used ++ [i]) ++ rest := by
      simp [h.items, hc]
    rw [hstop]
    refine Template.clearUpTo_of_items hitems fun j hj => ?_
    rcases List.mem_append.1 hj with hj | hj
    · exact h.clean j hj
    · obtain rfl := List.mem_singleton.1 hj
      rwa [← kindAt_zero hc]

/-- Where the cursor stands at a line terminator, the next lexeme is a run of them. -/
theorem exists_run (h : c.Behind t used) (hk : c.kindAt 0 = .garbage) : ∃ l i rest,
    l ∈ t.lexemes ∧ l.kind = .garbage ∧ c.span = l.span ∧ c.items = i :: rest ∧ i.kind = .garbage
      ∧ i.chars = l.chars := by
  obtain ⟨l, ls, hl, hkind⟩ := Parser.exists_lexeme_of_kindAt hk nofun
  obtain ⟨i, rest, hc⟩ := exists_item (c := c) (by simp [hk])
  have hchars := map_chars_itemsOf c.lexemes c.substitutions
  rw [show itemsOf c.lexemes c.substitutions = i :: rest from hc, hl] at hchars
  refine ⟨l, i, rest, h.lexemes.subset (by simp [hl]), hkind, by rw [span, hl], hc, ?_,
    (List.cons.inj hchars).1⟩
  rw [← kindAt_zero hc, hk]

end Behind

end Cursor

/-- A lexeme of line terminators is a run of them in a segment. -/
theorem Template.exists_isRunOf {t : Template} {l : Lexeme} (hl : l ∈ t.lexemes)
    (hk : l.kind = .garbage) : ∃ cut ∈ (0 :: t.boundaries).zip t.segments,
      ∃ before after, l.IsRunOf cut.1 cut.2.toList before after := by
  rcases List.mem_append.1 hl with hl | hl
  · exact ⟨(0, t.first), List.mem_cons_self, Lexeme.isRunOf_of_mem [] (.inl (by simp)) hl hk⟩
  · obtain ⟨cut, hcut, h⟩ := Lexeme.isRunOf_of_mem_ofSegments hl hk
    exact ⟨cut, List.mem_cons_of_mem _ hcut, h⟩

/-- If no flags have been put in, the line terminators at the cursor are not behind flags. -/
theorem Cursor.Behind.not_flagsBefore {t : Template} {c : Cursor} {used : List Item}
    (h : c.Behind t used) (hk : c.kindAt 0 = .garbage) (hflags : ∀ f, .node (.flags f) ∉ used) :
    ¬ t.FlagsBefore (extent used) := by
  rintro ⟨before, f, j, after, hitems, hj, hextent⟩
  obtain ⟨l, i, rest, hl, hkind, -, hc, -, hchars⟩ := h.exists_run hk
  obtain ⟨_, _, _, _, hrun⟩ := Template.exists_isRunOf hl hkind
  have hpos : 0 < byteSize i.chars := by
    rw [hchars]
    exact byteSize_pos hrun.nonempty
  have hsplit : used ++ i :: rest = (before ++ [.node (.flags f)]) ++ j :: after := by
    rw [← hc, ← h.items, hitems, List.append_assoc]
    rfl
  rcases List.append_eq_append_iff.1 hsplit with ⟨m, hm, hrest⟩ | ⟨m, hm, -⟩
  · cases m with
    | nil =>
      have hused : used = before ++ [.node (.flags f)] := by simpa using hm.symm
      exact hflags f (by simp [hused])
    | cons k m =>
      -- Otherwise the run would stand before the flags, and they would be further on.
      obtain ⟨rfl, -⟩ := List.cons.inj hrest
      have hsize := congrArg extent hm
      have hnode : extent [.node (.flags f)] = 0 := rfl
      rw [extent_append, hnode, extent_append, extent_cons] at hsize
      omega
  · exact hflags f (by simp [hm])

end RegexLiteral
