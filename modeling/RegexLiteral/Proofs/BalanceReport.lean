import RegexLiteral.Proofs.Balance
import RegexLiteral.Proofs.Nesting

/-!
# What the balance check decides

Tokens are balanced exactly if the word of their marks is well nested, and an error tells where the
word fails first: at a close that has no opener before it, or at its end
(`checkBalance_reports`). The check is followed mark by mark (`Follows`), and its stack is the one
with which a word is read.
-/

namespace RegexLiteral

open SpanEvent

/-! ## Following the marks -/

namespace SpanStack

/-- How a close that fails is reported, by the token that it belongs to and the span that it
meets. -/
def report (index : Nat) (text : String) : Option OpenSpan → BalanceError
  | none => .unmatched index text
  | some top => .mismatched index top.span text

/-- The run does to the stack what the events do, and reports what they fail with. -/
def Follows (m : EStateM BalanceError SpanStack Unit) (index : Nat) (text : String)
    (es : List SpanEvent) : Prop :=
  ∀ (spans : List OpenSpan) (k : Nat),
    match run spans es with
    | .ok spans' => m ⟨spans, k⟩ = .ok () ⟨spans', k⟩
    | .error met => ∃ s, m ⟨spans, k⟩ = .error (report index text met) s

variable {m n : EStateM BalanceError SpanStack Unit} {index : Nat} {text : String}
  {es fs : List SpanEvent}

theorem follows_pure : Follows (pure ()) index text [] := fun _ _ => rfl

theorem Follows.bind (hm : Follows m index text es) (hn : Follows n index text fs) :
    Follows (m >>= fun _ => n) index text (es ++ fs) := by
  intro spans k
  have hfirst := hm spans k
  rw [run_append]
  cases hes : run spans es with
  | ok spans' =>
    rw [hes] at hfirst
    simp only [bind_of_ok hfirst]
    exact hn spans' k
  | error met =>
    rw [hes] at hfirst
    obtain ⟨s, hs⟩ := hfirst
    exact ⟨s, by simp only [Bind.bind, EStateM.bind, hs]⟩

theorem follows_close {t : Token} {fits : OpenSpan → Bool} {e : SpanEvent}
    (hnil : step [] e = .error none)
    (hcons : ∀ top below, step (top :: below) e
      = if fits top then .ok below else .error (some top)) :
    Follows (close index t fits) index t.text [e] := by
  intro spans k
  rw [run_singleton]
  cases spans with
  | nil =>
    rw [hnil]
    exact ⟨_, rfl⟩
  | cons top below =>
    rw [hcons, close_cons]
    by_cases h : fits top
    · rw [if_pos h, if_pos h]
    · rw [if_neg h, if_neg h]
      exact ⟨_, rfl⟩

theorem follows_openNew (o : OpenSpan) : Follows (openNew o) index text [.opens o] :=
  fun _ _ => rfl

theorem follows_closePaired (index : Nat) (t : Token) : Follows (closePaired index t) index t.text
    (if t.isBalancer then [.balances t.char?] else []) := by
  unfold closePaired
  split
  · exact follows_close rfl fun _ _ => rfl
  · exact follows_pure

theorem follows_closeNamed (index : Nat) (t : Token) :
    Follows (closeNamed index t) index t.text (t.closeSpan.toList.map .ends) := by
  unfold closeNamed
  cases t.closeSpan with
  | none => exact follows_pure
  | some span => exact follows_close rfl fun _ _ => rfl

theorem follows_openPaired (t : Token) : Follows (openPaired t) index text
    (t.pairing.toList.map fun p => .opens ⟨p.span, some p.closer⟩) := by
  unfold openPaired
  cases t.pairing with
  | none => exact follows_pure
  | some p => exact follows_openNew _

theorem follows_openNamed (t : Token) : Follows (openNamed t) index text
    (t.openSpan.toList.map fun span => .opens ⟨span, none⟩) := by
  unfold openNamed
  cases t.openSpan with
  | none => exact follows_pure
  | some span => exact follows_openNew _

/-- A token does what its events do, and is counted. -/
theorem push_eq (t : Token) (spans : List OpenSpan) (k : Nat) :
    match run spans t.spanEvents with
    | .ok spans' => push t ⟨spans, k⟩ = .ok () ⟨spans', k + 1⟩
    | .error met => ∃ s, push t ⟨spans, k⟩ = .error (report k t.text met) s := by
  have h := (follows_closePaired k t).bind ((follows_closeNamed k t).bind
    ((follows_openPaired t).bind (follows_openNamed t)))
  exact h spans (k + 1)

end SpanStack

open SpanStack

variable {ts : List Token} {spans spans' : List OpenSpan} {e : BalanceError}

theorem pushAll_of_run : ∀ {ts : List Token} {spans : List OpenSpan} {k : Nat},
    run spans (spanEvents ts) = .ok spans' →
    pushAll ts ⟨spans, k⟩ = .ok () ⟨spans', k + ts.length⟩
  | [], spans, k, h => by
    obtain rfl := Except.ok.inj h
    rfl
  | t :: ts, spans, k, h => by
    obtain ⟨between, ht, hts⟩ := run_append_eq_ok (u := t.spanEvents) h
    have hpush := push_eq t spans k
    rw [ht] at hpush
    change (push t >>= fun _ => pushAll ts) ⟨spans, k⟩ = _
    rw [bind_of_ok hpush, pushAll_of_run hts, List.length_cons, Nat.add_assoc, Nat.add_comm 1]

/-- The check fails at the token whose events do. -/
theorem pushAll_of_error {us : List Token} (vs : List Token) {t : Token} (k : Nat)
    {met : Option OpenSpan}
    (hu : run spans (spanEvents us) = .ok spans') (ht : run spans' t.spanEvents = .error met) :
    ∃ s, pushAll (us ++ t :: vs) ⟨spans, k⟩
      = .error (report (k + us.length) t.text met) s := by
  induction us generalizing spans k with
  | nil =>
    obtain rfl := Except.ok.inj hu
    have hpush := push_eq t spans k
    rw [ht] at hpush
    obtain ⟨s, hs⟩ := hpush
    exact ⟨s, by simp only [List.nil_append, pushAll, Bind.bind, EStateM.bind, hs]; rfl⟩
  | cons t' us ih =>
    obtain ⟨between, ht', hus⟩ := run_append_eq_ok (u := t'.spanEvents) hu
    obtain ⟨s, hs⟩ := ih (k + 1) hus
    have hpush := push_eq t' spans k
    rw [ht'] at hpush
    refine ⟨s, ?_⟩
    change (push t' >>= fun _ => pushAll (us ++ t :: vs)) ⟨spans, k⟩ = _
    rw [bind_of_ok hpush, hs, List.length_cons, Nat.add_assoc, Nat.add_comm 1]

/-- Events that fail do so within the events of one token. -/
theorem exists_token_of_run_error : ∀ {ts : List Token} {spans : List OpenSpan}
    {met : Option OpenSpan}, run spans (spanEvents ts) = .error met →
    ∃ us t vs spans', ts = us ++ t :: vs ∧ run spans (spanEvents us) = .ok spans'
      ∧ run spans' t.spanEvents = .error met
  | [], _, _, h => nomatch h
  | t :: ts, spans, met, h => by
    rw [show spanEvents (t :: ts) = t.spanEvents ++ spanEvents ts from rfl, run_append] at h
    cases ht : run spans t.spanEvents with
    | error met' =>
      rw [ht] at h
      obtain rfl := Except.error.inj h
      exact ⟨[], t, ts, spans, rfl, rfl, ht⟩
    | ok between =>
      rw [ht] at h
      obtain ⟨us, t', vs, spans', rfl, hus, ht'⟩ := exists_token_of_run_error h
      refine ⟨t :: us, t', vs, spans', rfl, ?_, ht'⟩
      exact (run_append_of_ok ht).trans hus

/-! ## The check -/

theorem checkBalance_of_run (h : run [] (spanEvents ts) = .ok spans) :
    checkBalance ts = match spans with
      | [] => .ok ()
      | top :: _ => .error (.unclosed top.span) := by
  have hrun : (pushAll ts).run .start = .ok () ⟨spans, 0 + ts.length⟩ := pushAll_of_run h
  rw [checkBalance, hrun]
  cases spans <;> rfl

/-- The word before the first close that has no opener, told with the token that it belongs to. -/
def FirstFailure (ts : List Token) (index : Nat) (text : String) (before : List SpanEvent) :
    Prop :=
  ∃ us t vs es c fs, ts = us ++ t :: vs ∧ us.length = index ∧ t.text = text
    ∧ t.spanEvents = es ++ c :: fs ∧ before = spanEvents us ++ es
    ∧ c.IsClose ∧ AllOpened before ∧ ¬ c.HasOpener before

/-- What each error says of the tokens. -/
def Reports (ts : List Token) : BalanceError → Prop
  | .unmatched index text => ∃ before, FirstFailure ts index text before ∧ AllClosed before
  | .mismatched index innermost text => ∃ before o, FirstFailure ts index text before
    ∧ LastOpen before o ∧ o.span = innermost
  | .unclosed span => AllOpened (spanEvents ts) ∧ ∃ o, LastOpen (spanEvents ts) o ∧ o.span = span

theorem FirstFailure.exists_run {index : Nat} {text : String} {before : List SpanEvent}
    (h : FirstFailure ts index text before) : ∃ spans, run [] before = .ok spans
      ∧ checkBalance ts = .error (report index text spans.head?) := by
  obtain ⟨us, t, vs, es, c, fs, rfl, rfl, rfl, hevents, rfl, hc, hopened, hno⟩ := h
  obtain ⟨spans, hspans⟩ := allOpened_iff.1 hopened
  refine ⟨spans, hspans, ?_⟩
  obtain ⟨between, hus, hes⟩ := run_append_eq_ok hspans
  have hstep : step spans c = .error spans.head? := by
    cases spans with
    | nil => exact step_close_nil hc
    | cons top below =>
      rcases step_close top below hc with ⟨-, hclosed⟩ | ⟨hstep, -⟩
      · exact absurd ((hasOpener_iff hspans).2 ⟨top, below, rfl, hclosed⟩) hno
      · exact hstep
  have ht : run between t.spanEvents = .error spans.head? :=
    run_eq_error_iff.2 ⟨es, c, fs, spans, hevents, hes, hstep⟩
  obtain ⟨s, hs⟩ := pushAll_of_error vs 0 hus ht
  have hrun : (pushAll (us ++ t :: vs)).run .start
      = .error (report us.length t.text spans.head?) s := by
    rw [Nat.zero_add] at hs
    exact hs
  rw [checkBalance, hrun]

/-- Where the events fail, a close is the first without an opener. -/
theorem exists_firstFailure {met : Option OpenSpan} (h : run [] (spanEvents ts) = .error met) :
    ∃ index text before spans, FirstFailure ts index text before
      ∧ run [] before = .ok spans := by
  obtain ⟨us, t, vs, between, rfl, hus, ht⟩ := exists_token_of_run_error h
  obtain ⟨es, c, fs, spans, hevents, hes, hstep⟩ := run_eq_error_iff.1 ht
  have hc : c.IsClose := isClose_of_step_error hstep
  have hbefore : run [] (spanEvents us ++ es) = .ok spans := (run_append_of_ok hus).trans hes
  have hno : ¬ c.HasOpener (spanEvents us ++ es) := by
    rw [hasOpener_iff hbefore]
    rintro ⟨top, below, rfl, hclosed⟩
    cases (step_of_closedBy hclosed).symm.trans hstep
  exact ⟨us.length, t.text, _, spans, ⟨us, t, vs, es, c, fs, rfl, rfl, rfl, hevents, rfl, hc,
    allOpened_iff.2 ⟨spans, hbefore⟩, hno⟩, hbefore⟩

theorem reports_of_firstFailure {index : Nat} {text : String} {before : List SpanEvent}
    (h : FirstFailure ts index text before) (hrun : run [] before = .ok spans) :
    Reports ts (report index text spans.head?) := by
  cases spans with
  | nil => exact ⟨before, h, (allClosed_iff hrun).2 rfl⟩
  | cons top below => exact ⟨before, top, h, (lastOpen_iff hrun).2 ⟨below, rfl⟩, rfl⟩

theorem checkBalance_of_reports (h : Reports ts e) : checkBalance ts = .error e := by
  cases e with
  | unmatched index text =>
    obtain ⟨before, hfirst, hclosed⟩ := h
    obtain ⟨spans, hrun, hcheck⟩ := hfirst.exists_run
    rw [(allClosed_iff hrun).1 hclosed] at hcheck
    exact hcheck
  | mismatched index innermost text =>
    obtain ⟨before, o, hfirst, hlast, rfl⟩ := h
    obtain ⟨spans, hrun, hcheck⟩ := hfirst.exists_run
    obtain ⟨below, rfl⟩ := (lastOpen_iff hrun).1 hlast
    exact hcheck
  | unclosed span =>
    obtain ⟨hopened, o, hlast, rfl⟩ := h
    obtain ⟨spans, hrun⟩ := allOpened_iff.1 hopened
    obtain ⟨below, rfl⟩ := (lastOpen_iff hrun).1 hlast
    exact checkBalance_of_run hrun

theorem reports_of_checkBalance (h : checkBalance ts = .error e) : Reports ts e := by
  cases hrun : run [] (spanEvents ts) with
  | ok spans =>
    rw [checkBalance_of_run hrun] at h
    cases spans with
    | nil => cases h
    | cons top below =>
      obtain rfl := Except.error.inj h
      exact ⟨allOpened_iff.2 ⟨_, hrun⟩, top, (lastOpen_iff hrun).2 ⟨below, rfl⟩, rfl⟩
  | error met =>
    obtain ⟨index, text, before, spans, hfirst, hbefore⟩ := exists_firstFailure hrun
    obtain ⟨spans', hbefore', hcheck⟩ := hfirst.exists_run
    obtain rfl := Except.ok.inj (hbefore.symm.trans hbefore')
    obtain rfl := Except.error.inj (h.symm.trans hcheck)
    exact reports_of_firstFailure hfirst hbefore

/-- Tokens are balanced exactly if their events are well nested. Otherwise the first close without
an opener is reported, with the last span that is open before it if there is one; and if every close
has its opener, the last opener without a close. -/
theorem checkBalance_reports (ts : List Token) :
    (checkBalance ts = .ok () ↔ Nested (spanEvents ts))
      ∧ ∀ e, checkBalance ts = .error e ↔ Reports ts e := by
  refine ⟨?_, fun e => ⟨reports_of_checkBalance, checkBalance_of_reports⟩⟩
  rw [nested_iff_run]
  cases hrun : run [] (spanEvents ts) with
  | ok spans =>
    rw [checkBalance_of_run hrun]
    cases spans <;> simp
  | error met =>
    obtain ⟨index, text, before, spans, hfirst, -⟩ := exists_firstFailure hrun
    obtain ⟨spans', -, hcheck⟩ := hfirst.exists_run
    rw [hcheck]
    simp

/-- The closer of a class does not fit the escape that is still open. -/
example : checkBalance [(Token.ofChar .punctuator '[').opening ']' .characterClass,
    (Token.ofChar .punctuator '\\').startingSpan .escape,
    (Token.ofChar .punctuator ']').balancing] = .error (.mismatched 2 .escape "]") := rfl

end RegexLiteral
