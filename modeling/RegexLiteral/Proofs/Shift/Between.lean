import RegexLiteral.Proofs.Grammar
import RegexLiteral.Proofs.Lossless
import RegexLiteral.Proofs.Shift.Run

/-!
# Cursors in plain sources

A cursor in a source without cuts stands between what has been read of it and the rest
(`Cursor.between`). A row of characters that a parser uses up goes from the one to the other.
What has been read can be exchanged, and then the cursor stands in another source
(`Rebase.cursor_between`).
-/

namespace RegexLiteral

/-! ## Lexemes of a segment -/

theorem Lexeme.prepend_shift (distance start : Nat) (c : Char) (after : List Lexeme) :
    (Lexeme.prepend start c after).map (Lexeme.shift distance)
      = Lexeme.prepend (start + distance) c (after.map (Lexeme.shift distance)) := by
  unfold prepend
  split
  · rcases after with _ | ⟨⟨_, _ | _ | _⟩, more⟩ <;> rfl
  · rfl

theorem Lexeme.ofSegment_shift (distance : Nat) : ∀ (start : Nat) (cs : List Char),
    (Lexeme.ofSegment start cs).map (Lexeme.shift distance) = Lexeme.ofSegment (start + distance) cs
  | _, [] => rfl
  | start, c :: cs => by
    rw [ofSegment, prepend_shift, ofSegment_shift, ofSegment, Nat.add_right_comm]

/-- Behind characters that are no line terminators a segment is read as if it began there. -/
theorem Lexeme.ofSegment_append {start : Nat} {cs rest : List Char}
    (h : ∀ c ∈ cs, ¬ isLineTerminator c) : Lexeme.ofSegment start (cs ++ rest)
      = Lexeme.ofSegment start cs ++ Lexeme.ofSegment (start + byteSize cs) rest := by
  induction cs generalizing start with
  | nil => rfl
  | cons c cs ih =>
    have hc := h c List.mem_cons_self
    rw [List.cons_append, ofSegment, ofSegment, prepend_char hc, prepend_char hc,
      ih fun d hd => h d (List.mem_cons_of_mem _ hd), byteSize_cons, Nat.add_assoc]
    rfl

theorem Lexeme.length_ofSegment {start : Nat} {cs : List Char}
    (h : ∀ c ∈ cs, ¬ isLineTerminator c) : (Lexeme.ofSegment start cs).length = cs.length := by
  induction cs generalizing start with
  | nil => rfl
  | cons c cs ih =>
    rw [ofSegment, prepend_char (h c List.mem_cons_self), List.length_cons,
      ih fun d hd => h d (List.mem_cons_of_mem _ hd), List.length_cons]

theorem Lexeme.Tiles.start_le : ∀ {start : Nat} {ls : List Lexeme}, Lexeme.Tiles start ls →
    ∀ l ∈ ls, start ≤ l.start
  | _, [], _, l, hl => absurd hl List.not_mem_nil
  | start, l' :: ls, h, l, hl => by
    rcases List.mem_cons.1 hl with rfl | hl
    · exact Nat.le_of_eq h.1.symm
    · rw [← h.1]
      exact Nat.le_trans l'.start_le_stop (start_le h.2 l hl)

/-! ## Cursors -/

/-- In a plain source, behind `read` and before `rest`. -/
def Cursor.between (read rest : List Char) (delimiters : List OpenDelimiter)
    (spliced looks : Nat) : Cursor where
  lexemes := Lexeme.ofSegment (byteSize read) rest
  substitutions := []
  spliced := spliced
  delimiters := delimiters
  looks := looks
  allowance := lookAllowance
  fuel := none
  source := read ++ rest

section Between

variable {read rest cs : List Char} {c : Char} {delimiters : List OpenDelimiter}
  {spliced looks : Nat}

theorem ofText_cursor (cs : List Char) : (Template.ofText (String.ofList cs)).cursor none
    = .between [] cs [] 0 lookAllowance.looks := by
  have hlexemes : (Template.ofText (String.ofList cs)).lexemes = Lexeme.ofSegment 0 cs := by
    rw [ofText_lexemes, String.toList_ofList]
  have hsource : (Template.ofText (String.ofList cs)).source.toList = cs := by
    rw [← Template.flatMap_chars_lexemes, hlexemes, Lexeme.flatMap_chars_ofSegment]
  unfold Template.cursor
  rw [hlexemes, hsource]
  rfl

theorem lexemes_between (hc : ¬ isLineTerminator c) :
    (Cursor.between read (c :: cs) delimiters spliced looks).lexemes
      = ⟨byteSize read, .char c⟩ :: Lexeme.ofSegment (byteSize (read ++ [c])) cs := by
  rw [byteSize_append]
  exact prepend_char hc

theorem kindAt_between (hc : ¬ isLineTerminator c) :
    (Cursor.between read (c :: cs) delimiters spliced looks).kindAt 0 = Kind.ofChar c := by
  unfold Cursor.kindAt
  rw [lexemes_between hc]
  rfl

theorem regular_between (h : ∀ d ∈ delimiters, d.kind = .slash ∨ d.kind = .bracketOpen) :
    (Cursor.between read rest delimiters spliced looks).Regular where
  placed := ⟨read, by rw [Cursor.between, Lexeme.flatMap_chars_ofSegment],
    Lexeme.tiles_ofSegment _ _⟩
  delimited := h

theorem items_between (h : ∀ c ∈ cs, ¬ isLineTerminator c) :
    (Cursor.between read (cs ++ rest) delimiters spliced looks).items
      = cs.map .char ++ (Cursor.between (read ++ cs) rest delimiters spliced looks).items := by
  have hcut {start : Nat} {l : Lexeme} (hl : l ∈ Lexeme.ofSegment start cs) :
      l.piece ≠ .interpolation := piece_of_mem_ofSegment hl
  change itemsOf (Lexeme.ofSegment (byteSize read) (cs ++ rest)) [] = _
  rw [Lexeme.ofSegment_append h, itemsOf_append _ _ fun l hl => hcut hl, itemsOf_ofSegment h,
    ← byteSize_append]
  rfl

/-- Characters that are used up have been read. -/
theorem eq_between_of_reaches (h : ∀ c ∈ cs, ¬ isLineTerminator c) {c' : Cursor}
    (hr : (Cursor.between read (cs ++ rest) delimiters spliced looks).Reaches (cs.map .char) c') :
    c' = .between (read ++ cs) rest delimiters c'.spliced c'.looks := by
  obtain ⟨taken, hl, hlength⟩ := hr.lexemes
  have hlexemes : c'.lexemes = Lexeme.ofSegment (byteSize (read ++ cs)) rest := by
    have happend : Lexeme.ofSegment (byteSize read) cs
        ++ Lexeme.ofSegment (byteSize read + byteSize cs) rest = taken ++ c'.lexemes :=
      (Lexeme.ofSegment_append h).symm.trans hl
    rw [byteSize_append]
    refine (List.append_inj happend ?_).2.symm
    rw [Lexeme.length_ofSegment h, hlength, List.length_map]
  have hnodes : c'.substitutions = [] := (List.append_eq_nil_iff.1 hr.substitutions.symm).2
  have hfuel : c'.fuel = none := Option.map_eq_none_iff.1 hr.fuel.symm
  have hsource : c'.source = read ++ cs ++ rest := by rw [hr.source, List.append_assoc]; rfl
  have hdelimiters : c'.delimiters = delimiters := hr.delimiters
  have hallowance : c'.allowance = lookAllowance := hr.allowance
  obtain ⟨_, _, _, _, _, _, _, _⟩ := c'
  subst hlexemes hnodes hfuel hsource hdelimiters hallowance
  rfl

namespace Parser

theorem look_between (hc : ¬ isLineTerminator c) :
    look 0 (Cursor.between read (c :: cs) delimiters spliced (looks + 1))
      = .ok (Kind.ofChar c) (.between read (c :: cs) delimiters spliced looks) := by
  rw [look_apply, kindAt_between hc]
  rfl

theorem isAt_between (hc : ¬ isLineTerminator c) (k : Kind) :
    isAt k (Cursor.between read (c :: cs) delimiters spliced (looks + 1))
      = .ok (Kind.ofChar c == k) (.between read (c :: cs) delimiters spliced looks) := by
  change (look 0 >>= fun k' => pure (k' == k)) _ = _
  rw [bind_eq_of_ok (look_between hc)]
  rfl

theorem token_between (hc : ¬ isLineTerminator c) (category : Category) :
    token category (Cursor.between read (c :: cs) delimiters spliced (looks + 1))
      = .ok (.ofChar category c)
        (.between (read ++ [c]) cs delimiters spliced lookAllowance.looks) := by
  have hgarbage : Kind.ofChar c ≠ .garbage := fun h => hc (Kind.ofChar_eq_garbage_iff.1 h)
  have hconsume : consume (Cursor.between read (c :: cs) delimiters spliced (looks + 1))
      = .ok ⟨byteSize read, .char c⟩
        (.between (read ++ [c]) cs delimiters spliced lookAllowance.looks) := by
    rw [consume_cons (lexemes_between hc)]
    refine (if_neg hgarbage).trans ?_
    simp [Cursor.between]
  change (consume >>= fun l => newToken category l.text) _ = _
  rw [bind_eq_of_ok hconsume]
  change newToken category (String.singleton c) _ = _
  rw [newToken_singleton]
  rfl

end Parser

end Between

/-! ## Exchanging what has been read -/

namespace Rebase

variable (m : Rebase) (delimiters : List OpenDelimiter) (spliced looks : Nat)

theorem covers_between : m.Covers (.between m.before m.rest delimiters spliced looks) where
  source := rfl
  start := (Lexeme.tiles_ofSegment _ _).start_le
  plain l hl := by
    obtain ⟨start, c | _ | run⟩ := l
    · exact Kind.ofChar_ne_interpolation c
    · exact absurd rfl (piece_of_mem_ofSegment hl)
    · exact nofun
  nodes := rfl

theorem cursor_between : m.cursor (.between m.before m.rest delimiters spliced looks)
    = .between m.instead m.rest (delimiters.map (OpenDelimiter.shift m.distance)) m.spliced
        looks := by
  unfold cursor Cursor.between
  rw [Lexeme.ofSegment_shift, m.byteSize_instead]

end Rebase

end RegexLiteral
