import RegexLiteral.Proofs.Derivation
import RegexLiteral.Proofs.Spelling

/-!
# The language of plain sources

A plain source has no cuts, so its items are its characters, unless there is a line terminator in
it. It is read as a literal exactly if the grammar derives it, and as the tree of that derivation,
of which there is only one (`parsePattern_eq_ok_iff`).
-/

namespace RegexLiteral

theorem ofText_lexemes (s : String) :
    (Template.ofText s).lexemes = Lexeme.ofSegment 0 s.toList := by
  rw [Template.lexemes, Template.ofText, Lexeme.ofSegments, List.append_nil]

theorem prepend_char {start : Nat} {c : Char} {after : List Lexeme} (h : ¬ isLineTerminator c) :
    Lexeme.prepend start c after = ⟨start, .char c⟩ :: after := by
  unfold Lexeme.prepend
  rw [if_neg h]

theorem prepend_terminator {start : Nat} {c : Char} {after : List Lexeme} (h : isLineTerminator c) :
    ∃ run more, Lexeme.prepend start c after = ⟨start, .terminators run⟩ :: more := by
  unfold Lexeme.prepend
  rw [if_pos h]
  split
  · exact ⟨_, _, rfl⟩
  · exact ⟨_, _, rfl⟩

/-- Without line terminators every character is an item by itself. -/
theorem itemsOf_ofSegment : ∀ {start : Nat} {cs : List Char},
    (∀ c ∈ cs, ¬ isLineTerminator c) → itemsOf (Lexeme.ofSegment start cs) [] = cs.map .char
  | _, [], _ => rfl
  | start, c :: cs, h => by
    rw [Lexeme.ofSegment, prepend_char (h c List.mem_cons_self), itemsOf,
      itemsOf_ofSegment fun d hd => h d (List.mem_cons_of_mem _ hd), List.map_cons]

/-- Where a line terminator is, an item is no character. -/
theorem not_isLineTerminator_of_clean : ∀ {start : Nat} {cs : List Char},
    (∀ i ∈ itemsOf (Lexeme.ofSegment start cs) [], i.kind ≠ .garbage) →
    ∀ c ∈ cs, ¬ isLineTerminator c
  | _, [], _, c, hc => absurd hc List.not_mem_nil
  | start, d :: cs, h, c, hc => by
    have hd : ¬ isLineTerminator d := by
      intro hd
      obtain ⟨run, more, hrun⟩ : ∃ run more, Lexeme.prepend start d
          (Lexeme.ofSegment (start + d.utf8Size) cs) = ⟨start, .terminators run⟩ :: more :=
        prepend_terminator hd
      rw [Lexeme.ofSegment, hrun] at h
      exact h _ List.mem_cons_self rfl
    rw [Lexeme.ofSegment, prepend_char hd] at h
    rcases List.mem_cons.1 hc with rfl | hc
    · exact hd
    · exact not_isLineTerminator_of_clean (fun i hi => h i (List.mem_cons_of_mem _ hi)) c hc

theorem filterMap_node?_map_char (cs : List Char) : (cs.map .char).filterMap Item.node? = [] := by
  rw [List.filterMap_map]
  exact List.filterMap_eq_nil_iff.2 fun c _ => rfl

theorem Written.derives_ofText_iff {w : Written} {s : String} : w.Derives (Template.ofText s) ↔
    (∀ c ∈ s.toList, ¬ isLineTerminator c) ∧ w.items = s.toList.map .char := by
  have hlex : itemsOf (Template.ofText s).lexemes (Template.ofText s).substitutions
      = itemsOf (Lexeme.ofSegment 0 s.toList) [] := by
    rw [ofText_lexemes]
    rfl
  constructor
  · intro h
    have hi := h.items
    rw [hlex] at hi
    have hs : ∀ c ∈ s.toList, ¬ isLineTerminator c :=
      not_isLineTerminator_of_clean (by rw [hi]; exact h.clean)
    exact ⟨hs, hi.symm.trans (itemsOf_ofSegment hs)⟩
  · intro hex
    obtain ⟨hs, hi⟩ := hex
    refine ⟨by rw [hlex, itemsOf_ofSegment hs, hi], ?_, ?_⟩
    · rw [hi]
      intro i hmem hk
      obtain ⟨c, hc, rfl⟩ := List.mem_map.1 hmem
      exact hs c hc (Kind.ofChar_eq_garbage_iff.1 hk)
    · rw [hi, filterMap_node?_map_char]
      rfl

theorem parsePattern_eq_ok {s : String} {p : Pattern} :
    parsePattern s = .ok p ↔ (Template.ofText s).parse .pattern none = .ok (.pattern p) := by
  have hmap : (Template.ofText s).parse .pattern none = (parsePattern s).map .pattern := by
    change (Template.ofText s).run (Node.pattern <$> Parser.wholePattern) none
      = ((Template.ofText s).run Parser.wholePattern none).map .pattern
    exact Template.run_map _ _ _ _
  rw [hmap]
  cases parsePattern s with
  | ok q => simp [Except.map]
  | error e => simp [Except.map]

/-- A source is read as a literal exactly if no line terminator is in it and the grammar derives it.
The derivation is the only one, and what is read is its tree. -/
theorem parsePattern_eq_ok_iff (s : String) (p : Pattern) : parsePattern s = .ok p ↔
    (∀ c ∈ s.toList, ¬ isLineTerminator c) ∧ ∃ w : Written.Pattern,
      w.items = s.toList.map .char ∧ (∀ v : Written.Pattern, v.items = w.items → v = w)
        ∧ p = w.tree := by
  rw [parsePattern_eq_ok, Template.parse_eq_ok_iff]
  constructor
  · intro hex
    obtain ⟨w, hw, hd, -, htree⟩ := hex
    obtain ⟨hs, hi⟩ := Written.derives_ofText_iff.1 hd
    cases w with
    | pattern w =>
      exact ⟨hs, w, hi, fun v hv => Written.Pattern.items_inj hv, Node.pattern.inj htree⟩
    | flags f => cases hw
  · intro hex
    obtain ⟨hs, w, hi, -, rfl⟩ := hex
    exact ⟨.pattern w, rfl, Written.derives_ofText_iff.2 ⟨hs, hi⟩, by simp [HasFuel], rfl⟩

-- A brace that begins no complete sigil is a character, which can be repeated.
example : (parsePattern "/\x7b2\x7b3\x7d\x7b,5\x7d/").isOk = true := by decide +kernel

example : (parsePattern "/a\x7b3\x7d+/").isOk = false := by decide +kernel

end RegexLiteral
