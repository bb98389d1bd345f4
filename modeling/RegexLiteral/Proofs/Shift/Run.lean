import RegexLiteral.Proofs.Metered
import RegexLiteral.Proofs.Yields

/-!
# Runs on sources with the same end

Two sources that differ in their beginnings only are compared from where they are the same
(`Rebase`). A cursor on the first has a partner on the second, which stands where the same is left
to be read, with all positions moved by the difference of the beginnings; only the opening slash
stays where it is. A parser moves along if its run from the partner is the partner of its run:
the same result, or the same error at the moved range (`Moves`). Sequences and repetitions of
parsers that move along do so too.

The part that is the same has no cuts, so no node is put in, and the number of nodes that were put
in before does not count.
-/

namespace RegexLiteral

/-! ## Moving positions -/

def Span.shift (distance : Nat) (s : Span) : Span := ⟨s.start + distance, s.stop + distance⟩

/-- The range of the opening slash stays, and any other moves. -/
def Span.shiftRelated (distance : Nat) (s : Span) : Span :=
  if s = ⟨0, 1⟩ then s else s.shift distance

def Lexeme.shift (distance : Nat) (l : Lexeme) : Lexeme := ⟨l.start + distance, l.piece⟩

def OpenDelimiter.shift (distance : Nat) (d : OpenDelimiter) : OpenDelimiter :=
  ⟨d.kind, d.span.shiftRelated distance⟩

def Related.shift (distance : Nat) (r : Related) : Related :=
  ⟨r.span.shiftRelated distance, r.remark⟩

/-- The same error further right. -/
def ParseError.shift (distance : Nat) (e : ParseError) : ParseError :=
  ⟨e.cause, e.span.shift distance, e.related.map (Related.shift distance)⟩

def Failure.shift (distance : Nat) : Failure → Failure
  | error e => error (e.shift distance)
  | outOfFuel => outOfFuel
  | fault (.badSlice span) => fault (.badSlice (span.shift distance))
  | fault f => fault f

/-- Whatever begins further on than the opening slash moves. -/
theorem Span.shiftRelated_of_pos {s : Span} (h : 0 < s.start) (distance : Nat) :
    s.shiftRelated distance = s.shift distance := by
  refine if_neg ?_
  rintro rfl
  exact absurd h (Nat.lt_irrefl 0)

theorem Span.shiftRelated_shiftRelated (j k : Nat) (s : Span) :
    (s.shiftRelated j).shiftRelated k = s.shiftRelated (j + k) := by
  by_cases hs : s = ⟨0, 1⟩
  · simp [shiftRelated, hs]
  · have hne : s.shift j ≠ ⟨0, 1⟩ := by
      intro h
      obtain ⟨start, stop⟩ := s
      simp only [shift, Span.mk.injEq] at h hs
      omega
    simp only [shiftRelated, hs, hne, if_false]
    simp only [shift, Nat.add_assoc]

theorem Failure.shift_shift (j k : Nat) (e : Failure) : (e.shift j).shift k = e.shift (j + k) := by
  have hspan (s : Span) : (s.shift j).shift k = s.shift (j + k) := by
    simp only [Span.shift, Nat.add_assoc]
  rcases e with ⟨cause, span, related⟩ | _ | x
  · have hrelated (r : Related) : (r.shift j).shift k = r.shift (j + k) := by
      simp only [Related.shift, Span.shiftRelated_shiftRelated]
    simp only [shift, ParseError.shift, hspan, List.map_map]
    simp only [Function.comp_def, hrelated]
  · rfl
  · cases x <;> simp only [shift, hspan]

/-- Two beginnings of a source, and the end that is the same. -/
structure Rebase where
  before : List Char
  instead : List Char
  rest : List Char
  distance : Nat
  byteSize_instead : byteSize instead = byteSize before + distance
  /-- How many nodes cursors on the second source note as put in. No parser looks at it where no cut
  is left. -/
  spliced : Nat

namespace Rebase

variable (m : Rebase)

/-- The partner of a cursor on the first source. -/
def cursor (c : Cursor) : Cursor where
  lexemes := c.lexemes.map (Lexeme.shift m.distance)
  substitutions := c.substitutions
  spliced := m.spliced
  delimiters := c.delimiters.map (OpenDelimiter.shift m.distance)
  looks := c.looks
  allowance := c.allowance
  fuel := c.fuel
  source := m.instead ++ m.rest

def ending {α β : Type} (f : α → β) : Parser.Ending α → Parser.Ending β
  | .ok a c => .ok (f a) (m.cursor c)
  | .error e c => .error (e.shift m.distance) (m.cursor c)

/-- The cursor is on the first source, where it is the same as the second, and no cut is left. -/
structure Covers (c : Cursor) : Prop where
  source : c.source = m.before ++ m.rest
  start : ∀ l ∈ c.lexemes, byteSize m.before ≤ l.start
  plain : ∀ l ∈ c.lexemes, l.kind ≠ .interpolation
  nodes : c.substitutions = []

end Rebase

/-- The cursor stands further on in the same template. -/
structure Cursor.Follows (c' c : Cursor) : Prop where
  source : c'.source = c.source
  lexemes : c'.lexemes <:+ c.lexemes
  nodes : c'.substitutions = c.substitutions

theorem Cursor.Follows.refl (c : Cursor) : c.Follows c := ⟨rfl, List.suffix_rfl, rfl⟩

theorem Cursor.Follows.trans {c c' c'' : Cursor} (h : c''.Follows c') (h' : c'.Follows c) :
    c''.Follows c :=
  ⟨h.source.trans h'.source, h.lexemes.trans h'.lexemes, h.nodes.trans h'.nodes⟩

section Cursors

variable {m : Rebase} {c c' : Cursor}

theorem Rebase.Covers.follows (h : m.Covers c) (hf : c'.Follows c) : m.Covers c' where
  source := hf.source.trans h.source
  start l hl := h.start l (hf.lexemes.mem hl)
  plain l hl := h.plain l (hf.lexemes.mem hl)
  nodes := hf.nodes.trans h.nodes

theorem Lexeme.span_shift (distance : Nat) (l : Lexeme) :
    (l.shift distance).span = l.span.shift distance := by
  simp only [Lexeme.span, Span.shift, Lexeme.stop, Lexeme.shift, Lexeme.chars]
  rw [Nat.add_right_comm]

theorem Rebase.span_cursor (h : m.Covers c) : (m.cursor c).span = c.span.shift m.distance := by
  unfold Cursor.span
  cases hl : c.lexemes with
  | nil =>
    have hstop : (m.cursor c).stop = c.stop + m.distance := by
      change byteSize (m.instead ++ m.rest) = byteSize c.source + m.distance
      rw [h.source, byteSize_append, byteSize_append, m.byteSize_instead, Nat.add_right_comm]
    have hnil : (m.cursor c).lexemes = [] := by rw [cursor, hl]; rfl
    rw [hnil, hstop]
    rfl
  | cons l ls =>
    have hcons : (m.cursor c).lexemes = l.shift m.distance :: ls.map (Lexeme.shift m.distance) := by
      rw [cursor, hl]
      rfl
    rw [hcons]
    exact l.span_shift m.distance

theorem Rebase.Covers.start_le (h : m.Covers c) : byteSize m.before ≤ c.span.start := by
  unfold Cursor.span
  cases hl : c.lexemes with
  | nil =>
    change byteSize m.before ≤ byteSize c.source
    rw [h.source, byteSize_append]
    exact Nat.le_add_right _ _
  | cons l ls => exact h.start l (by rw [hl]; exact List.mem_cons_self)

@[simp] theorem Rebase.kindAt_cursor (n : Nat) : (m.cursor c).kindAt n = c.kindAt n := by
  unfold Cursor.kindAt cursor
  rw [List.getElem?_map]
  cases c.lexemes[n]? <;> rfl

@[simp] theorem Rebase.charsAt_cursor (n : Nat) : (m.cursor c).charsAt n = c.charsAt n := by
  unfold Cursor.charsAt cursor
  rw [List.getElem?_map]
  cases c.lexemes[n]? <;> rfl

@[simp] theorem Rebase.text_cursor : (m.cursor c).text = c.text := by
  rw [Cursor.text, Cursor.chars, charsAt_cursor]
  rfl

@[simp] theorem Rebase.chars_cursor : (m.cursor c).chars = c.chars := charsAt_cursor 0

@[simp] theorem Rebase.substitutions_cursor : (m.cursor c).substitutions = c.substitutions := rfl

@[simp] theorem Rebase.looks_cursor : (m.cursor c).looks = c.looks := rfl

@[simp] theorem Rebase.delimiters_cursor :
    (m.cursor c).delimiters = c.delimiters.map (OpenDelimiter.shift m.distance) := rfl

@[simp] theorem Rebase.lexemes_cursor :
    (m.cursor c).lexemes = c.lexemes.map (Lexeme.shift m.distance) := rfl

end Cursors

/-! ## Cutting the source -/

theorem dropBytes?_add (a cs : List Char) (n : Nat) :
    dropBytes? (byteSize a + n) (a ++ cs) = dropBytes? n cs := by
  induction a with
  | nil => rw [byteSize_nil, Nat.zero_add, List.nil_append]
  | cons c a ih =>
    obtain ⟨k, hk⟩ : ∃ k, c.utf8Size = k + 1 := ⟨c.utf8Size - 1, by have := c.utf8Size_pos; omega⟩
    have hsize : byteSize (c :: a) + n = (k + (byteSize a + n)) + 1 := by
      rw [byteSize_cons, hk]
      omega
    rw [hsize, List.cons_append, dropBytes?, if_pos (by omega), hk, ← ih]
    congr 1
    omega

theorem Rebase.slice?_shift (m : Rebase) {s : Span} (h : byteSize m.before ≤ s.start) :
    (s.shift m.distance).slice? (m.instead ++ m.rest) = s.slice? (m.before ++ m.rest) := by
  obtain ⟨n, hn⟩ := Nat.exists_eq_add_of_le h
  have hstart : s.start + m.distance = byteSize m.instead + n := by
    rw [hn, m.byteSize_instead]
    omega
  have hsize : s.stop + m.distance - (s.start + m.distance) = s.stop - s.start := by omega
  have hle : s.start + m.distance ≤ s.stop + m.distance ↔ s.start ≤ s.stop := by omega
  simp only [Span.slice?, Span.shift, hsize, hle]
  rw [hstart, hn, dropBytes?_add, dropBytes?_add]

namespace Parser

variable {α β γ δ : Type}

/-- From the partner of a cursor `q` does what `p` does from the cursor itself. -/
def Moves (m : Rebase) (f : α → β) (p : Parser α) (q : Parser β) : Prop :=
  ∀ c, m.Covers c → q (m.cursor c) = m.ending f (p c)
    ∧ Yields p c (fun _ c' => c'.Follows c) fun _ => True

/-- The result is the same, too. -/
abbrev Steady (m : Rebase) (p : Parser α) : Prop := Moves m id p p

variable {m : Rebase} {f : α → β} {g : γ → δ} {p : Parser α} {q : Parser β}

/-! ## Rules -/

theorem Moves.bind {k : α → Parser γ} {l : β → Parser δ} (hp : Moves m f p q)
    (hk : ∀ a, Moves m g (k a) (l (f a))) : Moves m g (p >>= k) (q >>= l) := by
  intro c hc
  obtain ⟨hrun, hfollows⟩ := hp c hc
  refine ⟨?_, hfollows.bind fun a c' hc' => ?_⟩
  · cases hpc : p c with
    | error e c' =>
      rw [hpc] at hrun
      rw [bind_eq_of_error hpc, bind_eq_of_error hrun]
      rfl
    | ok a c' =>
      rw [hpc] at hrun
      rw [bind_eq_of_ok hpc, bind_eq_of_ok hrun]
      unfold Yields at hfollows
      rw [hpc] at hfollows
      exact (hk a c' (hc.follows hfollows)).1
  · exact (hk a c' (hc.follows hc')).2.mono fun _ _ h => h.trans hc'

theorem moves_pure {a : α} {b : β} (h : b = f a) : Moves m f (pure a) (pure b) := by
  rw [h]
  exact fun c _ => ⟨rfl, Cursor.Follows.refl c⟩

theorem steady_pure (a : α) : Steady m (pure a) := moves_pure rfl

theorem Moves.map {k : α → γ} {l : β → δ} (hp : Moves m f p q) (h : ∀ a, l (f a) = g (k a)) :
    Moves m g (k <$> p) (l <$> q) := by
  rw [map_eq_pure_bind, map_eq_pure_bind]
  exact hp.bind fun a => moves_pure (h a)

theorem Steady.map {p : Parser α} (hp : Steady m p) (k : α → γ) : Steady m (k <$> p) :=
  Moves.map hp fun _ => rfl

/-- What is done with a cursor is done with its partner. -/
theorem moves_get {k : Cursor → Parser α} {l : Cursor → Parser β}
    (h : ∀ c, m.Covers c → Moves m f (k c) (l (m.cursor c))) :
    Moves m f (get >>= k) (get >>= l) := fun c hc => h c hc c hc

theorem moves_throw {e e' : Failure} (h : e' = e.shift m.distance) :
    Moves m f (throw e : Parser α) (throw e') := by
  rw [h]
  exact fun _ _ => ⟨rfl, trivial⟩

theorem steady_modify {k : Cursor → Cursor} (hk : ∀ c, m.Covers c → k (m.cursor c) = m.cursor (k c))
    (hf : ∀ c, (k c).Follows c) : Steady m (modify k : Parser PUnit) := by
  refine fun c hc => ⟨?_, hf c⟩
  change EStateM.Result.ok _ (k (m.cursor c)) = .ok _ (m.cursor (k c))
  rw [hk c hc]

/-! ## Failing -/

theorem moves_fault {x : Fault} (hx : ∀ span, x ≠ .badSlice span) :
    Moves m f (fault x : Parser α) (fault x) := by
  refine moves_throw ?_
  cases x <;> first | rfl | exact absurd rfl (hx _)

theorem moves_failAt (span : Span) (cause : Cause) :
    Moves m f (failAt span cause : Parser α) (failAt (span.shift m.distance) cause) :=
  moves_throw rfl

theorem moves_fail (cause : Cause) : Moves m f (fail cause : Parser α) (fail cause) :=
  moves_get fun c hc => by
    rw [m.span_cursor hc]
    exact moves_failAt _ _

theorem moves_failBecause (cause : Cause) (related : List Related) :
    Moves m f (failBecause cause related : Parser α)
      (failBecause cause (related.map (Related.shift m.distance))) :=
  moves_get fun c hc => by
    rw [m.span_cursor hc]
    exact moves_throw rfl

theorem moves_failUnclosed (cause : Cause) (remark : Remark) :
    Moves m f (failUnclosed cause remark : Parser α) (failUnclosed cause remark) := by
  refine moves_get fun c _ => ?_
  rw [Rebase.delimiters_cursor]
  cases c.delimiters with
  | nil => exact moves_failBecause cause []
  | cons d ds =>
    rw [List.map_cons]
    by_cases hd : (d.kind == .slash || d.kind == .bracketOpen) = true
    · simp only [OpenDelimiter.shift, hd, if_true]
      exact moves_failBecause cause [⟨d.span, remark⟩]
    · simp only [OpenDelimiter.shift, hd]
      exact moves_fault nofun

/-- A range moves with its ends. -/
theorem moves_range {start stop : Nat} {k : Span → Parser α} {l : Span → Parser β}
    (h : start ≤ stop → Moves m f (k ⟨start, stop⟩) (l (Span.shift m.distance ⟨start, stop⟩))) :
    Moves m f (range start stop >>= k)
      (range (start + m.distance) (stop + m.distance) >>= l) := by
  unfold range
  by_cases hle : start ≤ stop
  · rw [if_pos hle, if_pos (Nat.add_le_add_right hle _), pure_bind, pure_bind]
    exact h hle
  · rw [if_neg hle, if_neg fun h => hle (Nat.le_of_add_le_add_right h)]
    exact fun _ _ => ⟨rfl, trivial⟩

theorem moves_slice {span : Span} (h : byteSize m.before ≤ span.start) :
    Moves m id (slice span) (slice (span.shift m.distance)) := by
  refine moves_get fun c hc => ?_
  have hslice : (span.shift m.distance).slice? (m.cursor c).source = span.slice? c.source := by
    rw [hc.source]
    exact m.slice?_shift h
  rw [hslice]
  cases span.slice? c.source with
  | none => exact moves_throw rfl
  | some cs => exact steady_pure _

/-! ## Steps -/

theorem steady_look (n : Nat) : Steady m (look n) := by
  intro c hc
  have hrun : look n (m.cursor c) = m.ending id (look n c) := by
    rw [look_apply, look_apply, Rebase.looks_cursor, Rebase.kindAt_cursor]
    cases c.looks <;> rfl
  refine ⟨hrun, ?_⟩
  unfold Yields
  rw [look_apply]
  cases c.looks with
  | zero => trivial
  | succ looks => exact ⟨rfl, List.suffix_rfl, rfl⟩

theorem steady_isAt (k : Kind) : Steady m (isAt k) :=
  (steady_look 0).bind fun _ => steady_pure _

theorem steady_isAtAny (ks : KindSet) : Steady m (isAtAny ks) :=
  (steady_look 0).bind fun _ => steady_pure _

theorem steady_expect (k : Kind) : Steady m (expect k) := by
  refine (steady_isAt k).bind fun b => ?_
  dsimp only [id]
  split
  · exact steady_pure _
  · exact moves_fault nofun

theorem moves_consume : Moves m (Lexeme.shift m.distance) consume consume := by
  intro c _
  obtain ⟨lexemes, nodes, spliced, delimiters, looks, allowance, fuel, source⟩ := c
  cases lexemes with
  | nil =>
    unfold Yields
    rw [consume_nil rfl, consume_nil rfl]
    exact ⟨rfl, trivial⟩
  | cons l rest =>
    let c : Cursor := ⟨l :: rest, nodes, spliced, delimiters, looks, allowance, fuel, source⟩
    have hk : (l.shift m.distance).kind = l.kind := rfl
    have hrun := consume_cons (c := m.cursor c) (l := l.shift m.distance) rfl
    rw [Lexeme.span_shift, hk] at hrun
    unfold Yields
    rw [hrun, consume_cons (c := c) rfl]
    dsimp only [c, Rebase.cursor]
    cases looks with
    | zero => exact ⟨rfl, trivial⟩
    | succ looks =>
      by_cases hg : l.kind = .garbage
      · simp only [hg, if_true]
        exact ⟨rfl, trivial⟩
      · simp only [hg, if_false]
        rcases fuel with _ | _ | n
        · exact ⟨rfl, rfl, List.suffix_cons _ _, rfl⟩
        · exact ⟨rfl, trivial⟩
        · exact ⟨rfl, rfl, List.suffix_cons _ _, rfl⟩

theorem moves_sound {r : Except InvalidNode α} {r' : Except InvalidNode β} (h : r' = r.map f) :
    Moves m f (sound r) (sound r') := by
  rw [h]
  cases r with
  | ok a => exact moves_pure rfl
  | error cause => exact moves_fault nofun

theorem steady_sound (r : Except InvalidNode α) : Steady m (sound r) :=
  moves_sound (by cases r <;> rfl)

theorem steady_newToken (category : Category) (text : String) :
    Steady m (newToken category text) := steady_sound _

theorem steady_token (category : Category) : Steady m (token category) :=
  moves_consume.bind fun _ => steady_newToken _ _

/-- There is no cut, so no node is put in. -/
theorem steady_substitution : Steady m substitution := by
  intro c hc
  have hk : (c.kindAt 0 == .interpolation) = false := by
    rw [beq_eq_false_iff_ne]
    unfold Cursor.kindAt
    cases hl : c.lexemes with
    | nil => simp
    | cons l ls => exact hc.plain l (by rw [hl]; exact List.mem_cons_self)
  have hstalls (c' : Cursor) (hl : c'.looks = 0) :
      substitution c' = .error (.fault .stalled) c' := by
    unfold substitution expect isAt
    simp only [Bind.bind, EStateM.bind, look_apply, hl]
  have hmisplaced (c' : Cursor) {looks : Nat} (hl : c'.looks = looks + 1)
      (hk : (c'.kindAt 0 == .interpolation) = false) :
      substitution c' = .error (.fault (.misplaced .interpolation)) { c' with looks } := by
    unfold substitution expect isAt
    simp only [Bind.bind, EStateM.bind, look_apply, hl, hk]
    rfl
  unfold Yields
  cases hl : c.looks with
  | zero =>
    rw [hstalls c hl, hstalls (m.cursor c) hl]
    exact ⟨rfl, trivial⟩
  | succ looks =>
    have hkm : ((m.cursor c).kindAt 0 == .interpolation) = false := by
      rwa [Rebase.kindAt_cursor]
    rw [hmisplaced c hl hk, hmisplaced (m.cursor c) hl hkm]
    exact ⟨rfl, trivial⟩

theorem steady_closeDelimiter : Steady m closeDelimiter := by
  refine steady_modify (fun c _ => ?_) fun c => ⟨rfl, List.suffix_rfl, rfl⟩
  unfold Rebase.cursor
  rw [List.map_tail]

theorem steady_openDelimiter (hm : 0 < byteSize m.before) (k : Kind) :
    Steady m (openDelimiter k) := by
  refine steady_modify (fun c hc => ?_) fun c => ⟨rfl, List.suffix_rfl, rfl⟩
  have hspan : c.span.shiftRelated m.distance = (m.cursor c).span := by
    rw [Span.shiftRelated_of_pos (Nat.lt_of_lt_of_le hm hc.start_le), m.span_cursor hc]
  rw [← hspan]
  rfl

/-! ## Repeating -/

theorem Moves.collect {p : Parser (Option α)} {q : Parser (Option β)}
    (h : Moves m (Option.map f) p q) : Moves m (List.map f) (collect p) (collect q) := by
  have hwithin (n : Nat) : Moves m (List.map f) (collectWithin p n) (collectWithin q n) := by
    induction n with
    | zero => exact moves_fault nofun
    | succ n ih =>
      refine h.bind fun r => ?_
      cases r with
      | none => exact moves_pure rfl
      | some a => exact ih.bind fun as => moves_pure rfl
  refine moves_get fun c _ => ?_
  rw [Rebase.lexemes_cursor, List.length_map]
  exact hwithin _

theorem Steady.collect {p : Parser (Option α)} (h : Steady m p) : Steady m (collect p) := by
  have hmap : Moves m (Option.map id) p p := by rwa [Option.map_id]
  have hcollect := hmap.collect
  rwa [List.map_id_fun] at hcollect

end Parser

end RegexLiteral
