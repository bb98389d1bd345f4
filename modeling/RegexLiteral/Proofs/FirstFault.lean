import RegexLiteral.Proofs.Failing.Literal
import RegexLiteral.Proofs.Grammar
import RegexLiteral.Proofs.Location.Boundary

/-!
# Errors stand where a source goes wrong

The range of an error begins where the source goes wrong for the first time: what stands before it
can be completed to a literal, and nothing that begins with the source up to the end of the range is
one (`firstFault_of_parsePattern`). Where the range begins in braces, their end counts as well,
because only the closing brace makes them a sigil.
-/

namespace RegexLiteral

open Written

variable {cs V : List Char} {n : Nat} {span : Span}

/-! ## The end of a fault -/

/-- A complete sigil between braces ends at byte `stop`, and byte `n` belongs to it. -/
def SigilAround (cs : List Char) (n stop : Nat) : Prop :=
  ∃ before form after, cs = before ++ form ++ after ∧ BraceForm form ∧ byteSize before ≤ n
    ∧ n < byteSize (before ++ form) ∧ stop = byteSize (before ++ form)

/-- Where the range ends, or where the sigil between braces ends that it begins in, whichever is
later. -/
structure FaultEnd (cs : List Char) (span : Span) (stop : Nat) : Prop where
  reached : stop = span.stop ∨ SigilAround cs span.start stop
  stop_le : span.stop ≤ stop
  latest : ∀ n, SigilAround cs span.start n → n ≤ stop

/-- What stands before the range can be completed to a literal, with at most three characters. If
anything stands behind, then nothing is a literal that begins with the source up to the end of the
fault. -/
structure FirstFault (source : String) (span : Span) : Prop where
  completes : ∃ before, takeBytes? span.start source.toList = some before
    ∧ ∃ (after : List Char) (p : Pattern), after.length ≤ 3
      ∧ parsePattern (String.ofList (before ++ after)) = .ok p
  excludes : span.start < byteSize source.toList → ∃ stop seen, FaultEnd source.toList span stop
    ∧ takeBytes? stop source.toList = some seen
    ∧ ∀ (after : List Char) (p : Pattern), parsePattern (String.ofList (seen ++ after)) ≠ .ok p

/-- No sigil between braces begins within another. -/
theorem Written.BraceForm.eq_of_append {form form' d x y : List Char} (h : BraceForm form)
    (h' : BraceForm form') (heq : form ++ x = d ++ (form' ++ y))
    (hlt : byteSize d < byteSize form) : d = [] ∧ form = form' := by
  rcases List.append_eq_append_iff.1 heq with ⟨m, rfl, -⟩ | ⟨m, hm, hy⟩
  · rw [byteSize_append] at hlt
    omega
  obtain ⟨body', rfl, -⟩ := h'.exists_body
  cases m with
  | nil =>
    rw [List.append_nil] at hm
    rw [hm] at hlt
    omega
  | cons c m =>
    obtain rfl : '\x7b' = c := (List.cons.inj hy).1
    cases d with
    | nil =>
      refine ⟨rfl, (h.append_inj h' (x := x.map .char) (y := y.map .char) ?_).1⟩
      rw [← List.map_append, ← List.map_append, heq]
      rfl
    | cons a d =>
      -- A brace would stand behind the first character.
      obtain ⟨body, rfl, hbody⟩ := h.exists_body
      have hmem : '\x7b' ∈ body ++ ['\x7d'] := by
        rw [(List.cons.inj hm).2]
        simp
      rcases List.mem_append.1 hmem with hmem | hmem
      · exact absurd (hbody _ hmem) (by decide)
      · exact absurd hmem (by decide)

theorem SigilAround.le {stop stop' : Nat} (h : SigilAround cs n stop)
    (h' : SigilAround cs n stop') : stop' ≤ stop := by
  obtain ⟨before, form, after, rfl, hform, hle, hlt, rfl⟩ := h
  obtain ⟨before', form', after', heq, hform', hle', hlt', rfl⟩ := h'
  rw [List.append_assoc, List.append_assoc] at heq
  rw [byteSize_append] at hlt hlt'
  rcases List.append_eq_append_iff.1 heq with ⟨d, rfl, hd⟩ | ⟨d, rfl, hd⟩
  · rw [byteSize_append] at hle'
    obtain ⟨rfl, rfl⟩ := hform.eq_of_append hform' hd (by omega)
    simp
  · rw [byteSize_append] at hle
    obtain ⟨rfl, rfl⟩ := hform'.eq_of_append hform hd (by omega)
    simp

/-- What reaches to the end of the range, or to that of the sigil around its start, stands before
the end of the fault. -/
theorem exists_faultEnd {w : List Char} (hcs : cs = V ++ w) (h : byteSize V = span.stop
      ∨ SigilAround cs span.start (byteSize V) ∧ span.stop ≤ byteSize V) :
    ∃ more rest, FaultEnd cs span (byteSize (V ++ more)) ∧ cs = V ++ more ++ rest := by
  rcases h with h | ⟨h, hle⟩
  · by_cases hlater : ∃ stop, SigilAround cs span.start stop ∧ span.stop < stop
    · obtain ⟨stop, hsigil, hlt⟩ := hlater
      obtain ⟨before, form, after, hcs', -, -, -, hstop⟩ := id hsigil
      obtain ⟨more, hmore⟩ := prefix_of_byteSize_le (hcs.symm.trans hcs') (by omega)
      rw [hmore] at hstop hcs'
      refine ⟨more, after, ?_, hcs'⟩
      rw [← hstop]
      exact ⟨.inr hsigil, Nat.le_of_lt hlt, fun n hn => hsigil.le hn⟩
    · refine ⟨[], w, ?_, by rw [List.append_nil, hcs]⟩
      rw [List.append_nil]
      refine ⟨.inl h, by omega, fun n hn => ?_⟩
      have : ¬ span.stop < n := fun hlt => hlater ⟨n, hn, hlt⟩
      omega
  · refine ⟨[], w, ?_, by rw [List.append_nil, hcs]⟩
    rw [List.append_nil]
    exact ⟨.inr h, hle, fun n hn => h.le hn⟩

/-! ## Plain sources -/

/-- The items of a segment are its characters, and runs of line terminators. -/
theorem plain_itemsOf : ∀ (start : Nat) (cs : List Char),
    ∀ i ∈ itemsOf (Lexeme.ofSegment start cs) [], i.Plain
  | _, [], i, hi => absurd hi List.not_mem_nil
  | start, c :: cs, i, hi => by
    have ih := plain_itemsOf (start + c.utf8Size) cs
    rw [Lexeme.ofSegment] at hi
    generalize Lexeme.ofSegment (start + c.utf8Size) cs = after at hi ih
    by_cases hc : isLineTerminator c
    · unfold Lexeme.prepend at hi
      rw [if_pos hc] at hi
      split at hi
      · rename_i run more
        rcases List.mem_cons.1 hi with rfl | hi
        · exact .terminators ⟨c, List.mem_cons_self, hc⟩
        · exact ih i (List.mem_cons_of_mem _ hi)
      · rcases List.mem_cons.1 hi with rfl | hi
        · exact .terminators ⟨c, List.mem_cons_self, hc⟩
        · exact ih i hi
    · rw [prepend_char hc] at hi
      rcases List.mem_cons.1 hi with rfl | hi
      · exact .char hc
      · exact ih i hi

/-- The cursor at the beginning of a plain source. -/
def startOf (s : String) : Cursor := (Template.ofText s).cursor none

theorem items_startOf (s : String) :
    (startOf s).items = itemsOf (Lexeme.ofSegment 0 s.toList) [] := by
  rw [← ofText_lexemes]
  rfl

theorem plain_startOf (s : String) : (startOf s).Plain where
  toRegular := Cursor.regular_cursor _ none
  items := by
    rw [items_startOf]
    exact plain_itemsOf 0 s.toList
  fuel := rfl

theorem span_startOf (s : String) : (startOf s).span.start = 0 := by
  have hs : (startOf s).source = [] ++ (startOf s).lexemes.flatMap Lexeme.chars :=
    (Template.flatMap_chars_lexemes _).symm
  exact Cursor.span_start hs (Template.tiles_lexemes _)

theorem chars_startOf (s : String) : (startOf s).items.flatMap Item.chars = s.toList := by
  have hmap := map_chars_itemsOf (Lexeme.ofSegment 0 s.toList) []
  rw [items_startOf, List.flatMap_def, hmap, ← List.flatMap_def, Lexeme.flatMap_chars_ofSegment]

/-- Items without a line terminator are characters. -/
theorem eq_map_char {is : List Item} (h : ∀ i ∈ is, i.Plain)
    (hc : ∀ c ∈ is.flatMap Item.chars, ¬ isLineTerminator c) :
    is = (is.flatMap Item.chars).map .char := by
  induction is with
  | nil => rfl
  | cons i is ih =>
    rw [List.flatMap_cons] at hc ⊢
    have ih := ih (fun j hj => h j (List.mem_cons_of_mem _ hj))
      fun c hc' => hc c (List.mem_append_right _ hc')
    cases h i List.mem_cons_self with
    | char => exact congrArg _ ih
    | terminators hrun =>
      obtain ⟨c, hc', hterm⟩ := hrun
      exact absurd hterm (hc c (List.mem_append_left _ hc'))

theorem not_isLineTerminator_of_plain {is : List Item} (h : ∀ i ∈ is, i.Plain)
    (hc : ∀ i ∈ is, i.kind ≠ .garbage) :
    ∀ c ∈ is.flatMap Item.chars, ¬ isLineTerminator c := by
  intro c hmem
  obtain ⟨i, hi, hmem⟩ := List.mem_flatMap.1 hmem
  cases h i hi with
  | char h => rwa [List.mem_singleton.1 hmem]
  | terminators => exact absurd rfl (hc _ hi)

/-- A row of characters is read if it is a literal without line terminators. -/
theorem exists_parsePattern_iff : (∃ p, parsePattern (String.ofList cs) = .ok p)
    ↔ (∀ c ∈ cs, ¬ isLineTerminator c) ∧ IsLiteral (cs.map .char) := by
  simp only [parsePattern_eq_ok_iff, String.toList_ofList, isLiteral_iff]
  constructor
  · intro hex
    obtain ⟨_, hs, w, hw, -⟩ := hex
    exact ⟨hs, w, hw⟩
  · intro hex
    obtain ⟨hs, w, hw⟩ := hex
    exact ⟨_, hs, w, hw, fun v hv => Written.Pattern.items_inj hv, rfl⟩

/-! ## The first fault -/

/-- The error of a run stands behind what can be completed, and excludes what its range shows. -/
theorem stops_of_parsePattern {s : String} {e : Failure} (h : parsePattern s = .error e) :
    (startOf s).Stops (Completes IsLiteral) (Excludes IsLiteral) e := by
  have hfails := Parser.wholePattern_fails (plain_startOf s) rfl
    (show 2 ≤ lookAllowance.looks by decide)
  rcases Template.run_of_yields hfails with ⟨p, c, hp, -⟩ | ⟨e', he, hstops⟩
  · cases h.symm.trans hp
  · obtain rfl := Except.error.inj (h.symm.trans he)
    exact hstops

section Stopped

variable {s : String} {used rest : List Item}
  (h : StopsBehind (startOf s).span.start (startOf s).items (Completes IsLiteral)
    (Excludes IsLiteral) span used rest)

include h

theorem toList_of_stops :
    s.toList = used.flatMap Item.chars ++ rest.flatMap Item.chars := by
  rw [← List.flatMap_append, ← h.items, chars_startOf]

theorem start_of_stops : span.start = byteSize (used.flatMap Item.chars) := by
  rw [h.start_eq, span_startOf, Nat.zero_add, extent]

theorem completes_of_stops : ∃ before, takeBytes? span.start s.toList = some before
    ∧ ∃ (after : List Char) (p : Pattern), after.length ≤ 3
      ∧ parsePattern (String.ofList (before ++ after)) = .ok p := by
  have hplain : ∀ i ∈ used, i.Plain := fun i hi =>
    (plain_startOf s).items i (by rw [h.items]; exact List.mem_append_left _ hi)
  have hclean := not_isLineTerminator_of_plain hplain h.clean
  refine ⟨used.flatMap Item.chars, ?_, ?_⟩
  · rw [start_of_stops h, toList_of_stops h]
    exact takeBytes?_append _ _
  · obtain ⟨after, hlen, hafter, hliteral⟩ := h.viable
    rw [eq_map_char hplain hclean, ← List.map_append] at hliteral
    obtain ⟨p, hp⟩ := exists_parsePattern_iff.2 ⟨fun c hc =>
      (List.mem_append.1 hc).elim (hclean c) (hafter c), hliteral⟩
    exact ⟨after, p, hlen, hp⟩

/-- Unless the source ends there, something that reaches to the end of the range, or of the sigil
around its start, begins no literal. -/
theorem exists_never_of_stops (hlt : span.start < byteSize s.toList) : ∃ V w, s.toList = V ++ w
    ∧ (byteSize V = span.stop
      ∨ SigilAround s.toList span.start (byteSize V) ∧ span.stop ≤ byteSize V)
    ∧ ∀ (after : List Char) (p : Pattern),
      parsePattern (String.ofList (V ++ after)) ≠ .ok p := by
  have hs := toList_of_stops h
  have hplain := (plain_startOf s).items
  cases h.reason with
  | ends =>
    rw [start_of_stops h, hs, List.flatMap_nil, List.append_nil] at hlt
    exact absurd hlt (Nat.lt_irrefl _)
  | @terminator i rest' kind stop =>
    refine ⟨(used ++ [i]).flatMap Item.chars, rest'.flatMap Item.chars, ?_, .inl ?_, ?_⟩
    · rw [hs]
      simp
    · rw [stop, start_of_stops h, List.flatMap_append, byteSize_append]
      rfl
    · intro after p hp
      have hclean := (exists_parsePattern_iff.1 ⟨p, hp⟩).1
      have hi : i.Plain := hplain i (by rw [h.items]; simp)
      cases hi with
      | char hc => exact absurd (Kind.ofChar_eq_garbage_iff.1 kind) hc
      | terminators hrun =>
        obtain ⟨c, hc, hterm⟩ := hrun
        exact hclean c (by simp [Item.chars, hc]) hterm
  | @doomed v w _ items never covers =>
    rw [span_startOf] at covers
    have hv : s.toList = v.flatMap Item.chars ++ w.flatMap Item.chars := by
      rw [← List.flatMap_append, ← items, chars_startOf]
    refine ⟨_, _, hv, ?_, fun after p hp => ?_⟩
    · cases covers with
      | whole stop =>
        rw [stop, Nat.zero_add]
        exact .inl rfl
      | braces u form hitems hform after within stop =>
        rw [Nat.zero_add] at after within stop
        subst hitems
        refine .inr ⟨⟨u.flatMap Item.chars, form, w.flatMap Item.chars, ?_, hform, after, ?_, ?_⟩,
          stop⟩
        · rw [hv, List.flatMap_append, flatMap_chars_map_char]
        · rwa [extent, List.flatMap_append, flatMap_chars_map_char] at within
        · rw [List.flatMap_append, flatMap_chars_map_char]
    · obtain ⟨hclean, hliteral⟩ := exists_parsePattern_iff.1 ⟨p, hp⟩
      have hvplain : ∀ i ∈ v, i.Plain := fun i hi =>
        hplain i (by rw [items]; exact List.mem_append_left _ hi)
      rw [List.map_append, ← eq_map_char hvplain fun c hc =>
        hclean c (List.mem_append_left _ hc)] at hliteral
      exact never _ hliteral

end Stopped

/-- The range of an error begins where the source goes wrong for the first time. -/
theorem firstFault_of_parsePattern {s : String} {e : ParseError}
    (h : parsePattern s = .error (.error e)) : FirstFault s e.span := by
  obtain ⟨_, used, rest, he, hstops⟩ := stops_of_parsePattern h
  obtain rfl := Failure.error.inj he
  refine ⟨completes_of_stops hstops, fun hlt => ?_⟩
  obtain ⟨V, w, hs, hV, hnever⟩ := exists_never_of_stops hstops hlt
  obtain ⟨more, rest', hend, hs'⟩ := exists_faultEnd hs hV
  refine ⟨_, V ++ more, hend, ?_, fun after p => ?_⟩
  · rw [hs']
    exact takeBytes?_append _ _
  · rw [List.append_assoc]
    exact hnever _ p

/-- Numbers out of order, a number too large behind a comma, and a second sigil: the first error is
reported at the brace, the second within the braces, and the third behind them. -/
theorem firstFault_of_parsePattern_sigils :
    FirstFault "/ab\x7b2,1\x7d/" ⟨3, 8⟩ ∧ FirstFault "/a\x7b1,99999999999\x7d+/" ⟨5, 16⟩
      ∧ FirstFault "/a\x7b3\x7d\x7b4\x7d/" ⟨5, 6⟩ := by
  refine ⟨firstFault_of_parsePattern (e := ⟨.numbersOutOfOrder 2 (.finite 1), ⟨3, 8⟩, []⟩) ?_,
    firstFault_of_parsePattern (e := ⟨.numberTooLarge "99999999999", ⟨5, 16⟩, []⟩) ?_,
    firstFault_of_parsePattern (e := ⟨.stackedQuantifier, ⟨5, 6⟩, []⟩) ?_⟩ <;>
    decide +kernel

end RegexLiteral
