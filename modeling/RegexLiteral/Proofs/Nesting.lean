import RegexLiteral.Balance

/-!
# Well-nested words

The marks of a row of tokens are a word of events that open and close spans. `Nested` is the
language of the words in which every close has its opener and every opener its close. A word is
read with a stack: it can be read to its end exactly if each close has an opener
(`allOpened_iff`), and then the stack holds the openers that still wait, the last one on top
(`allClosed_iff`, `lastOpen_iff`).
-/

namespace RegexLiteral

inductive SpanEvent
  | opens (span : OpenSpan)
  /-- Closes a span that named this character. A token of several characters has none. -/
  | balances (closer : Option Char)
  | ends (span : SpanName)

/-- The marks of a token; what it closes comes before what it opens. -/
def Token.spanEvents (t : Token) : List SpanEvent :=
  (if t.isBalancer then [.balances t.char?] else [])
    ++ (t.closeSpan.toList.map .ends
      ++ (t.pairing.toList.map (fun p => .opens ⟨p.span, some p.closer⟩)
        ++ t.openSpan.toList.map fun span => .opens ⟨span, none⟩))

def spanEvents (ts : List Token) : List SpanEvent := ts.flatMap Token.spanEvents

/-- A span that named its closing character is closed by this character alone, and any other span
by its name. -/
inductive OpenSpan.ClosedBy : OpenSpan → SpanEvent → Prop
  | balanced (span : SpanName) (c : Char) : ClosedBy ⟨span, some c⟩ (.balances (some c))
  | named (span : SpanName) : ClosedBy ⟨span, none⟩ (.ends span)

inductive Nested : List SpanEvent → Prop
  | nil : Nested []
  | append {u v : List SpanEvent} (hu : Nested u) (hv : Nested v) : Nested (u ++ v)
  | span {o : OpenSpan} {c : SpanEvent} {u : List SpanEvent} (h : o.ClosedBy c) (hu : Nested u) :
    Nested (.opens o :: u ++ [c])

/-! ## Partners -/

/-- The opener has its close in the word behind it. -/
def OpenSpan.IsClosedIn (o : OpenSpan) (after : List SpanEvent) : Prop :=
  ∃ u c v, after = u ++ c :: v ∧ o.ClosedBy c ∧ Nested u

namespace SpanEvent

def IsClose (c : SpanEvent) : Prop := ∀ o, c ≠ .opens o

/-- The close has its opener in the word before it. -/
def HasOpener (c : SpanEvent) (before : List SpanEvent) : Prop :=
  ∃ u o v, before = u ++ .opens o :: v ∧ o.ClosedBy c ∧ Nested v

end SpanEvent

def AllOpened (w : List SpanEvent) : Prop := ∀ u c v, w = u ++ c :: v → c.IsClose → c.HasOpener u

def AllClosed (w : List SpanEvent) : Prop := ∀ u o v, w = u ++ .opens o :: v → o.IsClosedIn v

/-- The last opener of the word that has no close in it. -/
def LastOpen (w : List SpanEvent) (o : OpenSpan) : Prop :=
  ∃ u v, w = u ++ .opens o :: v ∧ ¬ o.IsClosedIn v ∧ AllClosed v

/-! ## Reading with a stack -/

namespace SpanEvent

/-- The spans that are open after the event. A close that fails tells the span that it meets. -/
def step : List OpenSpan → SpanEvent → Except (Option OpenSpan) (List OpenSpan)
  | spans, opens o => .ok (o :: spans)
  | [], _ => .error none
  | top :: below, balances c =>
    if top.closer.isSome && top.closer == c then .ok below else .error (some top)
  | top :: below, ends span =>
    if top.closer.isNone && top.span == span then .ok below else .error (some top)

def run : List OpenSpan → List SpanEvent → Except (Option OpenSpan) (List OpenSpan)
  | spans, [] => .ok spans
  | spans, e :: es =>
    match step spans e with
    | .ok spans => run spans es
    | .error met => .error met

variable {o top : OpenSpan} {c e : SpanEvent} {spans spans' below : List OpenSpan}
  {met : Option OpenSpan} {u v w : List SpanEvent}

theorem step_close (top : OpenSpan) (below : List OpenSpan) (h : c.IsClose) :
    (step (top :: below) c = .ok below ∧ top.ClosedBy c)
    ∨ (step (top :: below) c = .error (some top) ∧ ¬ top.ClosedBy c) := by
  obtain ⟨span, closer⟩ := top
  cases c with
  | opens o => exact absurd rfl (h o)
  | balances c =>
    by_cases hfits : (closer.isSome && closer == c) = true
    · refine .inl ⟨if_pos hfits, ?_⟩
      simp only [Bool.and_eq_true, Option.isSome_iff_exists, beq_iff_eq] at hfits
      obtain ⟨⟨d, rfl⟩, rfl⟩ := hfits
      exact .balanced span d
    · refine .inr ⟨if_neg hfits, ?_⟩
      rintro ⟨⟩
      simp at hfits
  | ends name =>
    by_cases hfits : (closer.isNone && span == name) = true
    · refine .inl ⟨if_pos hfits, ?_⟩
      simp only [Bool.and_eq_true, Option.isNone_iff_eq_none, beq_iff_eq] at hfits
      obtain ⟨rfl, rfl⟩ := hfits
      exact .named span
    · refine .inr ⟨if_neg hfits, ?_⟩
      rintro ⟨⟩
      simp at hfits

theorem step_close_nil (h : c.IsClose) : step [] c = .error none := by
  cases c with
  | opens o => exact absurd rfl (h o)
  | balances c => rfl
  | ends span => rfl

theorem isClose_or_opens (e : SpanEvent) : e.IsClose ∨ ∃ o, e = .opens o := by
  cases e with
  | opens o => exact .inr ⟨o, rfl⟩
  | balances c => exact .inl fun _ h => nomatch h
  | ends span => exact .inl fun _ h => nomatch h

theorem isClose_of_closedBy (h : o.ClosedBy c) : c.IsClose := by
  rintro _ rfl
  cases h

theorem isClose_of_step_error (h : step spans c = .error met) : c.IsClose := by
  rintro _ rfl
  cases h

theorem step_of_closedBy (h : o.ClosedBy c) : step (o :: spans) c = .ok spans := by
  rcases step_close _ _ (isClose_of_closedBy h) with ⟨hstep, -⟩ | ⟨-, hno⟩
  · exact hstep
  · exact absurd h hno

/-- A close that is read takes off the span that it closes. -/
theorem exists_of_step_close (hc : c.IsClose) (h : step spans c = .ok spans') :
    ∃ top, spans = top :: spans' ∧ top.ClosedBy c := by
  cases spans with
  | nil =>
    rw [step_close_nil hc] at h
    cases h
  | cons top below =>
    rcases step_close top below hc with ⟨hstep, hclosed⟩ | ⟨hstep, -⟩
    · obtain rfl := Except.ok.inj (hstep.symm.trans h)
      exact ⟨top, rfl, hclosed⟩
    · cases hstep.symm.trans h

theorem run_append : ∀ (spans : List OpenSpan) (u v : List SpanEvent),
    run spans (u ++ v) = match run spans u with
      | .ok spans' => run spans' v
      | .error met => .error met
  | _, [], _ => rfl
  | spans, e :: u, v => by
    rw [List.cons_append, run, run]
    cases step spans e with
    | ok spans' => exact run_append spans' u v
    | error met => rfl

theorem run_append_of_ok (h : run spans u = .ok spans') : run spans (u ++ v) = run spans' v := by
  rw [run_append, h]

theorem run_append_eq_ok (h : run spans (u ++ v) = .ok spans') :
    ∃ between, run spans u = .ok between ∧ run between v = .ok spans' := by
  rw [run_append] at h
  cases hu : run spans u with
  | ok between =>
    rw [hu] at h
    exact ⟨between, rfl, h⟩
  | error met =>
    rw [hu] at h
    cases h

theorem run_singleton (spans : List OpenSpan) (e : SpanEvent) : run spans [e] = step spans e := by
  rw [run]
  cases step spans e <;> rfl

theorem run_cons_eq_ok (h : run spans (e :: u) = .ok spans') :
    ∃ between, step spans e = .ok between ∧ run between u = .ok spans' := by
  obtain ⟨between, he, hu⟩ := run_append_eq_ok (u := [e]) h
  exact ⟨between, (run_singleton spans e).symm.trans he, hu⟩

/-- A run fails at the first close that does not fit. -/
theorem run_eq_error_iff : run spans w = .error met ↔ ∃ u c v spans', w = u ++ c :: v
    ∧ run spans u = .ok spans' ∧ step spans' c = .error met := by
  constructor
  · intro h
    induction w generalizing spans with
    | nil => cases h
    | cons e w ih =>
      rw [run] at h
      cases he : step spans e with
      | ok spans' =>
        rw [he] at h
        obtain ⟨u, c, v, spans'', rfl, hu, hc⟩ := ih h
        refine ⟨e :: u, c, v, spans'', rfl, ?_, hc⟩
        rw [run, he]
        exact hu
      | error met' =>
        rw [he] at h
        cases h
        exact ⟨[], e, w, spans, rfl, rfl, he⟩
  · intro hex
    obtain ⟨u, c, v, spans', rfl, hu, hc⟩ := hex
    rw [run_append_of_ok hu, run, hc]

end SpanEvent

open SpanEvent

variable {o : OpenSpan} {c : SpanEvent} {spans spans' : List OpenSpan} {u v w : List SpanEvent}

/-! ## What a run leaves open -/

theorem Nested.run (h : Nested u) (spans : List OpenSpan) : run spans u = .ok spans := by
  induction h generalizing spans with
  | nil => rfl
  | append _ _ ihu ihv => rw [run_append_of_ok (ihu spans), ihv]
  | @span o c u h _ ih =>
    change SpanEvent.run (o :: spans) (u ++ [c]) = .ok spans
    rw [run_append_of_ok (ih (o :: spans)), run_singleton, step_of_closedBy h]

/-- Openers that wait, innermost first, with nested words before, between and behind them. -/
inductive Leaves : List SpanEvent → List OpenSpan → Prop
  | nested {u : List SpanEvent} (h : Nested u) : Leaves u []
  | opened {u v : List SpanEvent} {o : OpenSpan} {spans : List OpenSpan} (h : Leaves u spans)
    (hv : Nested v) : Leaves (u ++ .opens o :: v) (o :: spans)

theorem Leaves.append (h : Leaves u spans) (hv : Nested v) : Leaves (u ++ v) spans := by
  cases h with
  | nested hu => exact .nested (hu.append hv)
  | opened hu hw =>
    rw [List.append_assoc, List.cons_append]
    exact .opened hu (hw.append hv)

theorem Leaves.step (h : Leaves u spans) (he : step spans c = .ok spans') :
    Leaves (u ++ [c]) spans' := by
  rcases c.isClose_or_opens with hc | ⟨o, rfl⟩
  · obtain ⟨top, rfl, hclosed⟩ := exists_of_step_close hc he
    cases h with
    | opened hu hv =>
      have hpair := hu.append (.span hclosed hv)
      simpa using hpair
  · obtain rfl := Except.ok.inj he
    exact .opened h .nil

theorem leaves_of_run : ∀ {v u : List SpanEvent} {spans : List OpenSpan}, Leaves u spans →
    run spans v = .ok spans' → Leaves (u ++ v) spans'
  | [], u, spans, h, hrun => by
    obtain rfl := Except.ok.inj hrun
    rwa [List.append_nil]
  | e :: v, u, spans, h, hrun => by
    obtain ⟨between, he, hv⟩ := run_cons_eq_ok hrun
    have := leaves_of_run (h.step he) hv
    rwa [List.append_assoc] at this

/-- A word that is read leaves open what the stack holds. -/
theorem leaves_of_run_nil (h : run [] w = .ok spans) : Leaves w spans :=
  leaves_of_run (u := []) (.nested .nil) h

theorem nested_iff_run : Nested w ↔ run [] w = .ok [] := by
  constructor
  · exact fun h => h.run []
  · intro h
    cases leaves_of_run_nil h with
    | nested h => exact h

/-! ## Partners and the stack -/

/-- A close fits the stack exactly if the word read so far has an opener for it. -/
theorem hasOpener_iff (h : run [] u = .ok spans) :
    c.HasOpener u ↔ ∃ top below, spans = top :: below ∧ top.ClosedBy c := by
  constructor
  · intro hex
    obtain ⟨before, o, v, rfl, hclosed, hv⟩ := hex
    obtain ⟨below, -, hrest⟩ := run_append_eq_ok h
    have hopen : run below (.opens o :: v) = .ok (o :: below) := hv.run (o :: below)
    exact ⟨o, below, Except.ok.inj (hrest.symm.trans hopen), hclosed⟩
  · intro hex
    obtain ⟨top, below, rfl, hclosed⟩ := hex
    cases leaves_of_run_nil h with
    | opened hu hv => exact ⟨_, top, _, rfl, hclosed, hv⟩

theorem exists_run_of_allOpened : ∀ {v u : List SpanEvent} {spans : List OpenSpan},
    run [] u = .ok spans → AllOpened (u ++ v) → ∃ spans', run [] (u ++ v) = .ok spans'
  | [], u, spans, hu, _ => ⟨spans, by rwa [List.append_nil]⟩
  | e :: v, u, spans, hu, h => by
    -- The stack behind `u` is known, so an opener for `e` in `u` is the span on top of it.
    obtain ⟨spans', he⟩ : ∃ spans', step spans e = .ok spans' := by
      rcases e.isClose_or_opens with hc | ⟨o, rfl⟩
      · obtain ⟨top, below, rfl, hclosed⟩ := (hasOpener_iff hu).1 (h u e v rfl hc)
        exact ⟨below, step_of_closedBy hclosed⟩
      · exact ⟨o :: spans, rfl⟩
    have hue : run [] (u ++ [e]) = .ok spans' := by
      rw [run_append_of_ok hu, run_singleton, he]
    rw [List.append_cons] at h ⊢
    exact exists_run_of_allOpened hue h

/-- A word can be read to its end exactly if each close has its opener. -/
theorem allOpened_iff : AllOpened w ↔ ∃ spans, run [] w = .ok spans := by
  constructor
  · have hnil : run [] [] = .ok [] := rfl
    exact exists_run_of_allOpened hnil
  · rintro ⟨spans, h⟩ u c v rfl hc
    obtain ⟨between, hu, hrest⟩ := run_append_eq_ok h
    obtain ⟨below, hstep, -⟩ := run_cons_eq_ok hrest
    obtain ⟨top, rfl, hclosed⟩ := exists_of_step_close hc hstep
    exact (hasOpener_iff hu).2 ⟨top, below, rfl, hclosed⟩

/-- A nested word closes nothing that stands before it. -/
theorem Nested.not_isClosedIn (h : Nested w) : ¬ o.IsClosedIn w := by
  rintro ⟨u, c, v, rfl, hclosed, hu⟩
  have hrun := h.run []
  rw [run_append_of_ok (hu.run []), SpanEvent.run, step_close_nil (isClose_of_closedBy hclosed)]
    at hrun
  cases hrun

theorem OpenSpan.IsClosedIn.append (h : o.IsClosedIn u) : o.IsClosedIn (u ++ v) := by
  obtain ⟨before, c, after, rfl, hclosed, hbefore⟩ := h
  exact ⟨before, c, after ++ v, by simp, hclosed, hbefore⟩

theorem AllClosed.append (hu : AllClosed u) (hv : AllClosed v) : AllClosed (u ++ v) := by
  intro before o after h
  rcases List.append_eq_append_iff.1 h with ⟨x, rfl, hx⟩ | ⟨x, rfl, hx⟩
  · exact hv x o after hx
  · cases x with
    | nil => exact hv [] o after hx.symm
    | cons e x =>
      obtain ⟨rfl, rfl⟩ := List.cons.inj hx
      exact (hu before o x rfl).append

theorem Nested.allClosed (h : Nested w) : AllClosed w := by
  induction h with
  | nil => intro u o v h; simp at h
  | append _ _ ihu ihv => exact ihu.append ihv
  | @span o c u h hu ih =>
    have hlast : AllClosed [c] := by
      intro before o' after hsplit
      rcases List.append_eq_singleton_iff.1 hsplit.symm with ⟨-, hc⟩ | ⟨-, hc⟩
      · exact absurd (List.cons.inj hc).1.symm (isClose_of_closedBy h o')
      · cases hc
    intro before o' after hsplit
    cases before with
    | nil =>
      obtain ⟨ho, rfl⟩ := List.cons.inj hsplit
      obtain rfl := SpanEvent.opens.inj ho
      exact ⟨u, c, [], rfl, h, hu⟩
    | cons e before => exact ih.append hlast before o' after (List.cons.inj hsplit).2

/-- Every opener has its close exactly if nothing is left on the stack. -/
theorem allClosed_iff (h : run [] w = .ok spans) : AllClosed w ↔ spans = [] := by
  constructor
  · intro hclosed
    cases leaves_of_run_nil h with
    | nested _ => rfl
    | opened hu hv => exact absurd (hclosed _ _ _ rfl) hv.not_isClosedIn
  · rintro rfl
    exact (nested_iff_run.2 h).allClosed

/-- No two openers are the last one that is not closed. -/
theorem LastOpen.unique {o' : OpenSpan} (h : LastOpen w o) (h' : LastOpen w o') : o = o' := by
  obtain ⟨u, v, rfl, hopen, hclosed⟩ := h
  obtain ⟨u', v', hw, hopen', hclosed'⟩ := h'
  rcases List.append_eq_append_iff.1 hw with ⟨x, rfl, hx⟩ | ⟨x, rfl, hx⟩
  · cases x with
    | nil => exact SpanEvent.opens.inj (List.cons.inj hx).1
    | cons e x => exact absurd (hclosed x o' v' (List.cons.inj hx).2) hopen'
  · cases x with
    | nil => exact (SpanEvent.opens.inj (List.cons.inj hx).1).symm
    | cons e x => exact absurd (hclosed' x o v (List.cons.inj hx).2) hopen

/-- The top of the stack is the last opener that is not closed. -/
theorem lastOpen_iff (h : run [] w = .ok spans) :
    LastOpen w o ↔ ∃ below, spans = o :: below := by
  have htop {top : OpenSpan} {below : List OpenSpan} (hs : spans = top :: below) :
      LastOpen w top := by
    subst hs
    cases leaves_of_run_nil h with
    | opened hu hv => exact ⟨_, _, rfl, hv.not_isClosedIn, hv.allClosed⟩
  constructor
  · intro hlast
    cases spans with
    | nil =>
      obtain ⟨u, v, rfl, hopen, -⟩ := hlast
      exact absurd ((allClosed_iff h).2 rfl u o v rfl) hopen
    | cons top below => exact ⟨below, by rw [hlast.unique (htop rfl)]⟩
  · intro hex
    obtain ⟨below, hs⟩ := hex
    exact htop hs

end RegexLiteral
