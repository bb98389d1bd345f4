import RegexLiteral.Balance

/-!
# Balanced rows of tokens

Tokens that leave the empty stack as they found it leave every stack so (`checkBalance_eq_ok_iff`):
what lies below is never touched. Hence rows of this kind can be put side by side, and between an
opener and its closer.
-/

namespace RegexLiteral

namespace SpanStack

/-- What the first run does to a stack, the second does to the same stack on top of another. -/
def Frames (m m' : EStateM BalanceError SpanStack Unit) : Prop :=
  ∀ (a b below : List OpenSpan) (i j k : Nat), m ⟨a, i⟩ = .ok () ⟨b, j⟩ →
    ∃ k', m' ⟨a ++ below, k⟩ = .ok () ⟨b ++ below, k'⟩

theorem bind_of_ok {m : EStateM BalanceError SpanStack Unit} {s s' : SpanStack}
    {f : Unit → EStateM BalanceError SpanStack Unit} (h : m s = .ok () s') :
    (m >>= f) s = f () s' := by
  simp only [Bind.bind, EStateM.bind, h]

theorem frames_pure : Frames (pure ()) (pure ()) := by
  intro a b below i j k h
  cases h
  exact ⟨k, rfl⟩

theorem Frames.bind {m m' n n' : EStateM BalanceError SpanStack Unit} (h : Frames m m')
    (hn : Frames n n') : Frames (m >>= fun _ => n) (m' >>= fun _ => n') := by
  intro a b below i j k hok
  cases hm : m ⟨a, i⟩ with
  | ok u s =>
    obtain ⟨k', hk'⟩ := h a s.spans below i s.index k hm
    rw [bind_of_ok hm] at hok
    obtain ⟨k'', hk''⟩ := hn s.spans b below s.index j k' hok
    exact ⟨k'', (bind_of_ok hk').trans hk''⟩
  | error e s => simp [Bind.bind, EStateM.bind, hm] at hok

theorem close_cons (fits : OpenSpan → Bool) (top : OpenSpan) (i k : Nat) (t : Token)
    (below : List OpenSpan) : close i t fits ⟨top :: below, k⟩
      = if fits top then .ok () ⟨below, k⟩
        else .error (.mismatched i top.span t.text) ⟨below, k⟩ := by
  change (if fits top then pure () else throw (.mismatched i top.span t.text) :
    EStateM BalanceError SpanStack Unit) ⟨below, k⟩ = _
  by_cases h : fits top
  · rw [if_pos h, if_pos h]
    rfl
  · rw [if_neg h, if_neg h]
    rfl

theorem frames_close (i k : Nat) (t : Token) (fits : OpenSpan → Bool) :
    Frames (close i t fits) (close k t fits) := by
  intro a b below i' j k' h
  cases a with
  | nil => cases h
  | cons top a =>
    by_cases hf : fits top
    · rw [close_cons, if_pos hf] at h
      cases h
      exact ⟨k', by rw [List.cons_append, close_cons, if_pos hf]⟩
    · rw [close_cons, if_neg hf] at h
      cases h

theorem frames_openNew (span : OpenSpan) : Frames (openNew span) (openNew span) := by
  intro a b below i j k h
  cases h
  exact ⟨k, rfl⟩

theorem frames_closePaired (i k : Nat) (t : Token) :
    Frames (closePaired i t) (closePaired k t) := by
  unfold closePaired
  split
  · exact frames_close i k t _
  · exact frames_pure

theorem frames_closeNamed (i k : Nat) (t : Token) : Frames (closeNamed i t) (closeNamed k t) := by
  unfold closeNamed
  split
  · exact frames_pure
  · exact frames_close i k t _

theorem frames_openPaired (t : Token) : Frames (openPaired t) (openPaired t) := by
  unfold openPaired
  split
  · exact frames_pure
  · exact frames_openNew _

theorem frames_openNamed (t : Token) : Frames (openNamed t) (openNamed t) := by
  unfold openNamed
  split
  · exact frames_pure
  · exact frames_openNew _

theorem frames_push (t : Token) : Frames (push t) (push t) := by
  intro a b below i j k h
  -- The number of the token goes into errors only.
  have hmarks := (frames_closePaired i k t).bind ((frames_closeNamed i k t).bind
    ((frames_openPaired t).bind (frames_openNamed t)))
  exact hmarks a b below (i + 1) j (k + 1) h

end SpanStack

open SpanStack

variable {ts us : List Token} {a b c : List OpenSpan}

/-- The tokens turn the spans in `a`, whatever lies below them, into those in `b`. -/
def Leads (ts : List Token) (a b : List OpenSpan) : Prop :=
  ∀ (below : List OpenSpan) (k : Nat), ∃ k', pushAll ts ⟨a ++ below, k⟩ = .ok () ⟨b ++ below, k'⟩

/-- The tokens leave every stack as it was. -/
def Balanced (ts : List Token) : Prop := Leads ts [] []

theorem frames_pushAll : ∀ ts : List Token, Frames (pushAll ts) (pushAll ts)
  | [] => frames_pure
  | t :: ts => (frames_push t).bind (frames_pushAll ts)

theorem checkBalance_eq_ok_iff : checkBalance ts = .ok () ↔ Balanced ts := by
  constructor
  · intro h below k
    unfold checkBalance EStateM.run at h
    split at h
    · rename_i u s hs
      have hnil : s.spans = [] := by
        obtain ⟨spans, index⟩ := s
        cases spans with
        | nil => rfl
        | cons top spans => cases h
      obtain ⟨k', hk'⟩ := frames_pushAll ts [] s.spans below 0 s.index k hs
      rw [hnil] at hk'
      exact ⟨k', hk'⟩
    · cases h
  · intro h
    obtain ⟨k, hk⟩ := h [] 0
    have hrun : (pushAll ts).run .start = .ok () ⟨[], k⟩ := hk
    unfold checkBalance
    rw [hrun]
    rfl

theorem Leads.append (h : Leads ts a b) (h' : Leads us b c) : Leads (ts ++ us) a c := by
  intro below k
  have happend : ∀ (ts : List Token) (s s' : SpanStack), pushAll ts s = .ok () s' →
      pushAll (ts ++ us) s = pushAll us s' := by
    intro ts
    induction ts with
    | nil =>
      intro s s' hs
      cases hs
      rfl
    | cons t ts ih =>
      intro s s' hs
      cases ht : push t s with
      | ok u s₁ =>
        have hs₁ : pushAll ts s₁ = .ok () s' := (bind_of_ok ht).symm.trans hs
        exact (bind_of_ok ht).trans (ih s₁ s' hs₁)
      | error e s₁ => simp [pushAll, Bind.bind, EStateM.bind, ht] at hs
  obtain ⟨k₁, hk₁⟩ := h below k
  obtain ⟨k₂, hk₂⟩ := h' below k₁
  exact ⟨k₂, (happend ts _ _ hk₁).trans hk₂⟩

/-! ## Single tokens -/

theorem balanced_plain (category : Category) (text : String) : Balanced [.plain category text] :=
  fun _ k => ⟨k + 1, rfl⟩

theorem leads_opening (category : Category) (text : String) (closer : Char) (span : SpanName) :
    Leads [(Token.plain category text).opening closer span] [] [⟨span, some closer⟩] :=
  fun _ k => ⟨k + 1, rfl⟩

theorem leads_startingSpan (category : Category) (text : String) (span : SpanName) :
    Leads [(Token.plain category text).startingSpan span] [] [⟨span, none⟩] :=
  fun _ k => ⟨k + 1, rfl⟩

theorem leads_balancing (category : Category) (closer : Char) (span : SpanName) :
    Leads [(Token.ofChar category closer).balancing] [⟨span, some closer⟩] [] := by
  intro below k
  have hchar : (Token.ofChar category closer).balancing.char? = some closer :=
    Token.char?_ofChar category closer
  have hclose : closePaired k (Token.ofChar category closer).balancing
      ⟨⟨span, some closer⟩ :: below, k + 1⟩ = .ok () ⟨below, k + 1⟩ := by
    change close k _ _ _ = _
    rw [close_cons, if_pos (by simp [hchar])]
  have hpush : push (Token.ofChar category closer).balancing ⟨⟨span, some closer⟩ :: below, k⟩
      = .ok () ⟨below, k + 1⟩ := by
    change (closePaired k _ >>= fun _ => _) ⟨⟨span, some closer⟩ :: below, k + 1⟩ = _
    rw [bind_of_ok hclose]
    rfl
  refine ⟨k + 1, ?_⟩
  change (push _ >>= fun _ => pushAll []) ⟨⟨span, some closer⟩ :: below, k⟩ = _
  rw [bind_of_ok hpush]
  rfl

theorem leads_endingSpan (category : Category) (text : String) (span : SpanName) :
    Leads [(Token.plain category text).endingSpan span] [⟨span, none⟩] [] := by
  intro below k
  cases span <;> exact ⟨k + 1, rfl⟩

/-! ## Rows of tokens -/

namespace Balanced

theorem nil : Balanced [] := fun _ k => ⟨k, rfl⟩

theorem append (h : Balanced ts) (h' : Balanced us) : Balanced (ts ++ us) := Leads.append h h'

theorem flatMap {α : Type} {f : α → List Token} : ∀ {xs : List α}, (∀ x ∈ xs, Balanced (f x)) →
    Balanced (xs.flatMap f)
  | [], _ => nil
  | x :: xs, h => by
    rw [List.flatMap_cons]
    exact (h x List.mem_cons_self).append
      (flatMap fun y hy => h y (List.mem_cons_of_mem _ hy))

/-- An opener, balanced tokens and the closer that the opener names. -/
theorem paired (category : Category) (text : String) (closer : Char) (span : SpanName)
    (h : Balanced ts) : Balanced ((Token.plain category text).opening closer span :: ts
      ++ [(Token.ofChar category closer).balancing]) := by
  refine Leads.append (Leads.append (leads_opening category text closer span) ?_)
    (leads_balancing category closer span)
  intro below k
  exact h (⟨span, some closer⟩ :: below) k

end Balanced

end RegexLiteral
