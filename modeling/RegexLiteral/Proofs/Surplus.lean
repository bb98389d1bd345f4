import RegexLiteral.Proofs.Fuel
import RegexLiteral.Proofs.Lossless
import RegexLiteral.Proofs.Pairing

/-!
# Too many nodes, and too few

A node without a cut is found when all else has been read, so further nodes change nothing but the
end of a run that would have succeeded. A cut without a node is found where it stands, and is the
first one after those that have a node.
-/

namespace RegexLiteral

/-- With more nodes behind those that there are. -/
def Template.withMore (t : Template) (more : List Node) : Template :=
  { t with substitutions := t.substitutions ++ more }

namespace Parser

variable {t : Template} {c c' : Cursor}

theorem paired_finish (h : c.Paired t) : Ending.Paired t (finish c) := by
  refine (pairsFrom_expect h _).ends.bind fun _ c' _ h' => ?_
  rw [get_bind_apply]
  cases c'.substitutions with
  | nil => exact h'
  | cons node rest => exact ⟨h', trivial⟩

/-- Nodes behind those that belong to cuts are found at the end, where there would be no error
without them. -/
theorem finish_withMore (h : c.Paired t) (heven : t.substitutions.length = t.boundaries.length)
    {more : List Node} (hmore : more ≠ []) :
    (∃ e c', finish c = .error e c' ∧ finish (c.withMore more) = .error e (c'.withMore more))
      ∨ ∃ c', finish c = .ok () c' ∧ finish (c.withMore more)
        = .error (.error ⟨.surplusSubtree t.boundaries.length, .empty (byteSize t.source.toList),
          []⟩) (c'.withMore more) := by
  have hsame := (pairsFrom_expect h .eof).more (Nat.le_of_eq heven.symm) more
  unfold finish
  cases hexpect : expect .eof c with
  | error e c' =>
    rw [hexpect] at hsame
    exact .inl ⟨e, c', bind_eq_of_error hexpect, bind_eq_of_error hsame⟩
  | ok u c' =>
    rw [hexpect] at hsame
    rw [bind_eq_of_ok hexpect, bind_eq_of_ok hsame]
    obtain ⟨hk, looks, rfl⟩ := expect_eq_ok hexpect
    have hnil : c.lexemes = [] := Cursor.items_eq_nil_iff.1 (Cursor.kindAt_eq_eof hk)
    have hspliced : c.spliced = t.boundaries.length := by
      have hleft := h.cuts_left
      rwa [hnil, Lexeme.cuts_nil, Nat.add_zero] at hleft
    have hnone : c.substitutions = [] := by
      rw [h.substitutions, hspliced, ← heven, List.drop_length]
    obtain ⟨node, rest, rfl⟩ := List.exists_cons_of_ne_nil hmore
    refine .inr ⟨{ c with looks }, ?_, ?_⟩
    · rw [get_bind_apply]
      simp only [hnone]
      rfl
    · rw [get_bind_apply]
      simp only [Cursor.withMore, hnone, List.nil_append]
      rw [← hspliced, ← h.source]
      rfl

end Parser

namespace Template

open RegexLiteral.Parser

variable {t : Template} {production : Production} {fuel : Option Nat}

theorem parse_of_ok {n : Node} {c : Cursor} (h : t.ending production fuel = .ok n c) :
    t.parse production fuel = .ok n := by
  rw [parse_eq_ending, h]
  rfl

theorem parse_of_error {e : Failure} {c : Cursor} (h : t.ending production fuel = .error e c) :
    t.parse production fuel = .error e := by
  rw [parse_eq_ending, h]
  rfl

theorem exists_ending {e : Failure} (h : t.parse production fuel = .error e) :
    ∃ c, t.ending production fuel = .error e c := by
  cases hr : t.ending production fuel with
  | ok n c => cases (parse_of_ok hr).symm.trans h
  | error e' c =>
    cases (parse_of_error hr).symm.trans h
    exact ⟨c, rfl⟩

theorem cursor_withMore (t : Template) (more : List Node) (fuel : Option Nat) :
    (t.withMore more).cursor fuel = (t.cursor fuel).withMore more := rfl

theorem paired_ending (t : Template) (production : Production) (fuel : Option Nat) :
    Ending.Paired t (t.ending production fuel) := by
  unfold ending
  rw [production.parser_eq]
  have hbody := (stepwise_pairs t).body production _ (Cursor.paired_cursor t fuel)
  refine hbody.ends.bind fun n c _ h => ?_
  exact (paired_finish h).bind fun _ c' _ h' => h'

/-- Wherever reading ends, cuts and nodes are paired. -/
theorem paired_stop (t : Template) (production : Production) (fuel : Option Nat) :
    Cursor.Paired t (t.ending production fuel).cursor := by
  have hends := t.paired_ending production fuel
  cases he : t.ending production fuel with
  | ok n c =>
    rw [he] at hends
    exact hends
  | error e c =>
    rw [he] at hends
    cases e with
    | error e => exact hends.1
    | outOfFuel => exact hends
    | fault x => exact (parse_isProper (parse_of_error he)).elim

theorem ending_withMore (heven : t.substitutions.length = t.boundaries.length) {more : List Node}
    (hmore : more ≠ []) :
    (∃ e c, t.ending production fuel = .error e c
        ∧ (t.withMore more).ending production fuel = .error e (c.withMore more))
      ∨ ∃ n c, t.ending production fuel = .ok n c ∧ (t.withMore more).ending production fuel
        = .error (.error ⟨.surplusSubtree t.boundaries.length, .empty (byteSize t.source.toList),
          []⟩) (c.withMore more) := by
  have hbody := (stepwise_pairs t).body production _ (Cursor.paired_cursor t fuel)
  have hsame := hbody.more (Nat.le_of_eq heven.symm) more
  have hends := hbody.ends
  unfold ending
  rw [production.parser_eq, cursor_withMore]
  cases hb : production.body (t.cursor fuel) with
  | error e c =>
    rw [hb] at hsame
    exact .inl ⟨e, c, bind_eq_of_error hb, bind_eq_of_error hsame⟩
  | ok n c =>
    rw [hb] at hsame hends
    rw [bind_eq_of_ok hb, bind_eq_of_ok hsame]
    rcases finish_withMore hends heven hmore with ⟨e, c', hf, hf'⟩ | ⟨c', hf, hf'⟩
    · exact .inl ⟨e, c', bind_eq_of_error hf, bind_eq_of_error hf'⟩
    · exact .inr ⟨n, c', bind_eq_of_ok hf, bind_eq_of_error hf'⟩

/-- What is read has as many nodes as cuts. -/
theorem length_of_parse {n : Node} (h : t.parse production fuel = .ok n) :
    t.substitutions.length = t.boundaries.length := by
  obtain ⟨w, -, hd, -, -⟩ := parse_eq_ok_iff.1 h
  exact hd.text.1

/-- If there is one node for each cut, further nodes are reported behind everything else: an error
stays the same, and what would have been read is an error at the end of the source, about the first
of the further nodes. If there are too few nodes, nothing is read. The cut that is reported to be
without a node is the first one after those that have a node. -/
theorem surplus_reported_last (t : Template) (production : Production) (fuel : Option Nat) :
    (t.substitutions.length = t.boundaries.length → ∀ more : List Node, more ≠ [] →
      (∀ e, t.parse production fuel = .error e →
        (t.withMore more).parse production fuel = .error e)
      ∧ ∀ n, t.parse production fuel = .ok n → (t.withMore more).parse production fuel
        = .error (.error ⟨.surplusSubtree t.boundaries.length, .empty (byteSize t.source.toList),
          []⟩))
    ∧ (t.substitutions.length < t.boundaries.length → ∀ n, t.parse production fuel ≠ .ok n)
    ∧ ∀ i span related,
      t.parse production fuel = .error (.error ⟨.noSubtree i, span, related⟩) →
        i = t.substitutions.length ∧ related = []
          ∧ ∃ position, t.boundaries[i]? = some position ∧ span = .empty position := by
  refine ⟨fun heven more hmore => ?_, fun hfew n hn => ?_, fun i span related he => ?_⟩
  · rcases ending_withMore heven hmore with ⟨e, c, h, h'⟩ | ⟨n, c, h, h'⟩
    · refine ⟨fun e' he => ?_, fun n hn => ?_⟩
      · rw [parse_of_error h']
        exact (parse_of_error h).symm.trans he
      · cases (parse_of_error h).symm.trans hn
    · refine ⟨fun e he => ?_, fun _ _ => parse_of_error h'⟩
      cases (parse_of_ok h).symm.trans he
  · exact absurd (length_of_parse hn) (Nat.ne_of_lt hfew)
  · obtain ⟨c, hc⟩ := exists_ending he
    have hends := t.paired_ending production fuel
    rw [hc] at hends
    obtain ⟨-, hi, position, hposition, heq⟩ := hends
    cases heq
    exact ⟨hi, rfl, position, hposition, rfl⟩

/-- A node too many behind a literal that is not closed and behind one that is read, and a node too
few. -/
theorem surplus_reported_last_samples :
    let node : Node := .character (.ofCode 'n')
    let few : Template := ⟨"/é", ["b", "/"], [node]⟩
    ((ofText "/a").withMore [node]).parse .pattern none
        = .error (.error ⟨.noClosingSlash, .empty 2, [⟨⟨0, 1⟩, .patternOpened⟩]⟩)
      ∧ (withMore ⟨"/a", ["/"], [node]⟩ [node]).parse .pattern none
        = .error (.error ⟨.surplusSubtree 1, .empty 3, []⟩)
      ∧ (∀ n, few.parse .pattern none ≠ .ok n)
      ∧ few.parse .pattern none = .error (.error ⟨.noSubtree 1, .empty 4, []⟩)
      ∧ ∃ position, few.boundaries[1]? = some position ∧ Span.empty 4 = .empty position := by
  intro node few
  have hopen : (ofText "/a").parse .pattern none
      = .error (.error ⟨.noClosingSlash, .empty 2, [⟨⟨0, 1⟩, .patternOpened⟩]⟩) := by decide +kernel
  obtain ⟨n, hn⟩ : ∃ n, Template.parse ⟨"/a", ["/"], [node]⟩ .pattern none = .ok n :=
    exists_of_isOk (by decide +kernel)
  have hsize : byteSize (source ⟨"/a", ["/"], [node]⟩).toList = 3 := by decide
  have hmissing : few.parse .pattern none = .error (.error ⟨.noSubtree 1, .empty 4, []⟩) := by
    decide +kernel
  obtain ⟨hfails, -⟩ := (surplus_reported_last (ofText "/a") .pattern none).1 rfl [node]
    (List.cons_ne_nil _ _)
  obtain ⟨-, hreads⟩ := (surplus_reported_last ⟨"/a", ["/"], [node]⟩ .pattern none).1 rfl [node]
    (List.cons_ne_nil _ _)
  rw [hsize] at hreads
  obtain ⟨-, hfew, hcut⟩ := surplus_reported_last few .pattern none
  obtain ⟨-, -, hposition⟩ := hcut _ _ _ hmissing
  exact ⟨hfails _ hopen, hreads n hn, hfew (by decide), hmissing, hposition⟩

end Template

end RegexLiteral
