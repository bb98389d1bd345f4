import RegexLiteral.Proofs.Faultless
import RegexLiteral.Proofs.Shift.Between

/-!
# How a source is cut into lexemes

A segment is a row of characters that are lexemes by themselves and of runs of line terminators, and
each run is one lexeme (`Lexeme.segment_induction`). The same lexemes come from one scan from left
to right that holds the run it is in until the run ends (`Lexeme.scan_eq`). So a run is a lexeme if
it cannot be made longer within its segment (`Lexeme.isRunOf_of_mem`), and two texts in a row have
the lexemes of the one and of the other, save that a run at the end of the first and a run at the
beginning of the second become one (`Lexeme.ofSegment_append_join`).
-/

namespace RegexLiteral

namespace Lexeme

/-- A lexeme of line terminators within a segment, as many of them as follow each other there. -/
structure IsRunOf (l : Lexeme) (start : Nat) (segment before after : List Char) : Prop where
  text : segment = before ++ l.chars ++ after
  position : l.start = start + byteSize before
  nonempty : l.chars ≠ []
  terminators : ∀ c ∈ l.chars, isLineTerminator c
  left : ∀ c ∈ before.getLast?, ¬ isLineTerminator c
  right : ∀ c ∈ after.head?, ¬ isLineTerminator c

/-- Two rows of lexemes in a row. Line terminators on both sides of the seam become one run. -/
def join (a b : List Lexeme) : List Lexeme :=
  match a.getLast?, b with
  | some ⟨start, .terminators run⟩, ⟨_, .terminators more⟩ :: rest =>
    a.dropLast ++ ⟨start, .terminators (run ++ more)⟩ :: rest
  | _, _ => a ++ b

/-! ## Runs of line terminators -/

section Runs

variable {start : Nat} {run rest : List Char}

theorem ofSegment_char {c : Char} (hc : ¬ isLineTerminator c) (cs : List Char) :
    ofSegment start (c :: cs) = ⟨start, .char c⟩ :: ofSegment (start + c.utf8Size) cs :=
  prepend_char hc

/-- A run that does not go on is one lexeme. -/
theorem ofSegment_run (hne : run ≠ []) (hrun : ∀ c ∈ run, isLineTerminator c)
    (hrest : ∀ c ∈ rest.head?, ¬ isLineTerminator c) : ofSegment start (run ++ rest)
      = ⟨start, .terminators run⟩ :: ofSegment (start + byteSize run) rest := by
  induction run generalizing start with
  | nil => exact absurd rfl hne
  | cons c run ih =>
    have hc : isLineTerminator c := hrun c List.mem_cons_self
    rw [List.cons_append, ofSegment]
    rcases eq_or_ne run [] with rfl | hmore
    · cases rest with
      | nil => simp [ofSegment, prepend, hc]
      | cons d rest =>
        have hd := hrest d rfl
        simp [ofSegment_char hd, prepend, hc]
    · rw [ih hmore fun d hd => hrun d (List.mem_cons_of_mem _ hd), byteSize_cons, ← Nat.add_assoc]
      exact if_pos hc

/-- A line terminator begins a run of all that follow it. -/
theorem exists_run {c : Char} (hc : isLineTerminator c) (cs : List Char) :
    ∃ run rest, c :: cs = run ++ rest ∧ run = (c :: cs).takeWhile isLineTerminator ∧ run ≠ []
      ∧ (∀ d ∈ run, isLineTerminator d) ∧ ∀ d ∈ rest.head?, ¬ isLineTerminator d := by
  refine ⟨_, _, (List.takeWhile_append_dropWhile (p := isLineTerminator)).symm, rfl, ?_,
    List.all_eq_true.1 List.all_takeWhile, fun d hd => ?_⟩
  · rw [List.takeWhile_cons_of_pos hc]
    exact List.cons_ne_nil _ _
  · have hhead := List.head?_dropWhile_not isLineTerminator (c :: cs)
    rw [Option.mem_def.1 hd] at hhead
    simpa using hhead

/-- Every segment is made of characters and of runs of line terminators that do not go on. -/
@[elab_as_elim]
theorem segment_induction {motive : List Char → Prop} (nil : motive [])
    (char : ∀ c cs, ¬ isLineTerminator c → motive cs → motive (c :: cs))
    (run : ∀ run rest, run ≠ [] → (∀ c ∈ run, isLineTerminator c) →
      (∀ c ∈ rest.head?, ¬ isLineTerminator c) → motive rest → motive (run ++ rest)) :
    ∀ cs, motive cs := by
  intro cs
  induction hn : cs.length using Nat.strongRecOn generalizing cs with
  | ind n ih =>
    obtain _ | ⟨c, cs⟩ := cs
    · exact nil
    by_cases hc : isLineTerminator c
    · obtain ⟨r, rest, hsplit, -, hne, hrun, hrest⟩ := exists_run hc cs
      have hlen := congrArg List.length hsplit
      have hpos := List.length_pos_of_ne_nil hne
      rw [List.length_append, hn] at hlen
      rw [hsplit]
      exact run r rest hne hrun hrest (ih rest.length (by omega) rest rfl)
    · exact char c cs hc (ih cs.length (by rw [← hn]; exact Nat.lt_succ_self _) cs rfl)

/-- In a segment whose rest begins with a new lexeme, the line terminators of the rest are in runs
that are as long as they can be. -/
theorem isRunOf_of_mem (before : List Char) {cs : List Char}
    (hseam : (∀ c ∈ before.getLast?, ¬ isLineTerminator c) ∨ ∀ c ∈ cs.head?, ¬ isLineTerminator c)
    {l : Lexeme} (hl : l ∈ ofSegment (start + byteSize before) cs) (hk : l.kind = .garbage) :
    ∃ before' after, l.IsRunOf start (before ++ cs) before' after := by
  induction cs using segment_induction generalizing before with
  | nil => exact absurd hl List.not_mem_nil
  | char c cs hc ih =>
    rw [ofSegment_char hc] at hl
    rcases List.mem_cons.1 hl with rfl | hl
    · exact absurd (Kind.ofChar_eq_garbage_iff.1 hk) hc
    · have hbefore : start + byteSize (before ++ [c]) = start + byteSize before + c.utf8Size := by
        simp [Nat.add_assoc]
      rw [← hbefore] at hl
      obtain ⟨b, a, h⟩ := ih _ (.inl (by simpa using hc)) hl
      exact ⟨b, a, by simpa using h⟩
  | run run rest hne hrun hrest ih =>
    rw [ofSegment_run hne hrun hrest] at hl
    rcases List.mem_cons.1 hl with rfl | hl
    · refine ⟨before, rest, ⟨by simp [chars, Piece.chars], rfl, hne, hrun, ?_, hrest⟩⟩
      refine hseam.elim id fun h => ?_
      obtain _ | ⟨c, run⟩ := run
      · exact absurd rfl hne
      · exact absurd (hrun c List.mem_cons_self) (h c rfl)
    · rw [Nat.add_assoc, ← byteSize_append] at hl
      obtain ⟨b, a, h⟩ := ih _ (.inr hrest) hl
      exact ⟨b, a, by simpa using h⟩

end Runs

/-! ## One scan from left to right -/

/-- A run that ends is a lexeme, if there is any. -/
def flush (start : Nat) (run : List Char) : List Lexeme :=
  if run = [] then [] else [⟨start, .terminators run⟩]

/-- Reads a segment from left to right, in a run of line terminators that starts at `start` and ends
with the next other character or with the segment. -/
def scan (start : Nat) (run : List Char) : List Char → List Lexeme
  | [] => flush start run
  | c :: cs =>
    if isLineTerminator c then scan start (run ++ [c]) cs
    else
      flush start run ++ ⟨start + byteSize run, .char c⟩
        :: scan (start + byteSize run + c.utf8Size) [] cs

theorem flush_append {start : Nat} {run rest : List Char} (hrun : ∀ c ∈ run, isLineTerminator c)
    (hrest : ∀ c ∈ rest.head?, ¬ isLineTerminator c) :
    flush start run ++ ofSegment (start + byteSize run) rest = ofSegment start (run ++ rest) := by
  by_cases hne : run = []
  · subst hne
    rfl
  · rw [ofSegment_run hne hrun hrest, flush, if_neg hne]
    rfl

/-- The run that is held is part of what is read. -/
theorem scan_eq {start : Nat} {run cs : List Char} (hrun : ∀ c ∈ run, isLineTerminator c) :
    scan start run cs = ofSegment start (run ++ cs) := by
  induction cs generalizing start run with
  | nil =>
    rw [scan, ← flush_append hrun (by simp)]
    exact (List.append_nil _).symm
  | cons c cs ih =>
    unfold scan
    split
    · rename_i hc
      rw [ih (by simpa [or_imp, forall_and] using ⟨hrun, hc⟩), List.append_assoc]
      rfl
    · rename_i hc
      rw [ih (by simp), ← flush_append hrun (by simpa using hc), ofSegment_char hc]
      rfl

/-! ## Two texts in a row -/

theorem join_cons_cons (l m : Lexeme) (a b : List Lexeme) :
    join (l :: m :: a) b = l :: join (m :: a) b := by
  unfold join
  rw [List.getLast?_cons_cons]
  split <;> simp

/-- A character is put before a row of lexemes whatever comes behind the row. -/
theorem prepend_join (start : Nat) (c : Char) (a b : List Lexeme) :
    prepend start c (join a b) = join (prepend start c a) b := by
  unfold prepend
  split
  · rcases a with _ | ⟨⟨s, _ | _ | run⟩, _ | ⟨m, a⟩⟩
    · rcases b with _ | ⟨⟨_, _ | _ | _⟩, _⟩ <;> rfl
    · rfl
    · rw [join_cons_cons, join_cons_cons, join_cons_cons]
    · rfl
    · rw [join_cons_cons, join_cons_cons, join_cons_cons]
    · rcases b with _ | ⟨⟨_, _ | _ | _⟩, _⟩ <;> rfl
    · rw [join_cons_cons, join_cons_cons]
  · rcases a with _ | ⟨m, a⟩
    · rcases b with _ | ⟨⟨_, _ | _ | _⟩, _⟩ <;> rfl
    · rw [join_cons_cons]

theorem ofSegment_append_join (start : Nat) (a b : List Char) :
    ofSegment start (a ++ b) = join (ofSegment start a) (ofSegment (start + byteSize a) b) := by
  induction a generalizing start with
  | nil => rfl
  | cons c a ih =>
    rw [List.cons_append, ofSegment, ofSegment, ih, byteSize_cons, ← Nat.add_assoc, prepend_join]

/-! ## Segments in a row -/

/-- Lexemes that are neither cuts nor runs are single characters. -/
theorem exists_char_of_kind {l : Lexeme} (hcut : l.kind ≠ .interpolation)
    (hrun : l.kind ≠ .garbage) : ∃ c, l.chars = [c] ∧ l.kind = Kind.ofChar c := by
  obtain ⟨start, c | _ | run⟩ := l
  · exact ⟨c, rfl, rfl⟩
  · exact absurd rfl hcut
  · exact absurd rfl hrun

theorem ofSegments_eq (start : Nat) (later : List String) : ofSegments start later
    = ((Template.startsFrom start later).zip later).flatMap fun cut =>
        ⟨cut.1, .interpolation⟩ :: ofSegment cut.1 cut.2.toList := by
  induction later generalizing start with
  | nil => rfl
  | cons s later ih =>
    rw [ofSegments, ih, Template.startsFrom, List.zip_cons_cons, List.flatMap_cons]

theorem filter_interpolation_ofSegment (start : Nat) (cs : List Char) :
    (ofSegment start cs).filter (·.kind == .interpolation) = [] := by
  refine List.filter_eq_nil_iff.2 fun l hl hk => ?_
  obtain ⟨start, c | _ | run⟩ := l
  · exact Kind.ofChar_ne_interpolation c (eq_of_beq hk)
  · exact piece_of_mem_ofSegment hl rfl
  · cases hk

theorem filter_interpolation_ofSegments (start : Nat) (later : List String) :
    (ofSegments start later).filter (·.kind == .interpolation)
      = (Template.startsFrom start later).map fun cut => ⟨cut, .interpolation⟩ := by
  induction later generalizing start with
  | nil => rfl
  | cons s later ih =>
    rw [ofSegments, List.filter_append, ih, List.filter_cons_of_pos rfl,
      filter_interpolation_ofSegment]
    rfl

/-- The line terminators behind the cuts are in runs of their segments. -/
theorem isRunOf_of_mem_ofSegments {start : Nat} {later : List String} {l : Lexeme}
    (hl : l ∈ ofSegments start later) (hk : l.kind = .garbage) :
    ∃ cut ∈ (Template.startsFrom start later).zip later,
      ∃ before after, l.IsRunOf cut.1 cut.2.toList before after := by
  induction later generalizing start with
  | nil => exact absurd hl List.not_mem_nil
  | cons s later ih =>
    rcases List.mem_append.1 hl with hl | hl
    · rcases List.mem_cons.1 hl with rfl | hl
      · cases hk
      · exact ⟨(start, s), List.mem_cons_self, isRunOf_of_mem [] (.inl (by simp)) hl hk⟩
    · obtain ⟨cut, hcut, h⟩ := ih hl
      exact ⟨cut, List.mem_cons_of_mem _ hcut, h⟩

end Lexeme

namespace Template

/-- The cuts stand among the lexemes at their positions. -/
theorem filter_interpolation_lexemes (t : Template) :
    t.lexemes.filter (·.kind == .interpolation)
      = t.boundaries.map fun cut => ⟨cut, .interpolation⟩ := by
  rw [lexemes, List.filter_append, Lexeme.filter_interpolation_ofSegment,
    Lexeme.filter_interpolation_ofSegments]
  rfl

/-- The lexemes cover the source without a gap. Apart from the cuts, which stand at their
positions, they are characters, told by themselves, and runs of line terminators that end with the
run or with the segment. Segments are read one by one, each in one scan that holds the run it is in,
and only line terminators at a seam of two texts are read otherwise than in each text alone. -/
theorem lexemes_tile (t : Template) (a b : String) :
    (Lexeme.Tiles 0 t.lexemes ∧ Lexeme.stopOf 0 t.lexemes = byteSize t.source.toList
        ∧ t.lexemes.flatMap Lexeme.chars = t.source.toList
        ∧ ∀ l ∈ t.lexemes, l.span.slice? t.source.toList = some l.chars)
      ∧ (∀ l ∈ t.lexemes, l.kind ≠ .interpolation → l.kind ≠ .garbage →
        ∃ c, l.chars = [c] ∧ l.kind = Kind.ofChar c)
      ∧ (∀ l ∈ t.lexemes, l.kind = .garbage → ∃ cut ∈ (0 :: t.boundaries).zip t.segments,
        ∃ before after, l.IsRunOf cut.1 cut.2.toList before after)
      ∧ (t.lexemes.filter (·.kind == .interpolation)).map Lexeme.span = t.boundaries.map .empty
      ∧ t.lexemes = Lexeme.scan 0 [] t.first.toList
        ++ (t.boundaries.zip t.later).flatMap (fun cut =>
          ⟨cut.1, .interpolation⟩ :: Lexeme.scan cut.1 [] cut.2.toList)
      ∧ t.lexemes = (ofText t.first).lexemes ++ (t.boundaries.zip t.later).flatMap (fun cut =>
        ⟨cut.1, .interpolation⟩ :: (ofText cut.2).lexemes.map (Lexeme.shift cut.1))
      ∧ (ofText (a ++ b)).lexemes = Lexeme.join (ofText a).lexemes
        ((ofText b).lexemes.map (Lexeme.shift (byteSize a.toList))) := by
  have hscan (start : Nat) (cs : List Char) : Lexeme.scan start [] cs = Lexeme.ofSegment start cs :=
    Lexeme.scan_eq (by simp)
  refine ⟨⟨t.tiles_lexemes, ?_, t.flatMap_chars_lexemes, fun l => slice?_lexeme⟩,
    fun l _ => Lexeme.exists_char_of_kind, fun l hl hk => ?_, ?_, ?_, ?_, ?_⟩
  · rw [Lexeme.stopOf_eq t.tiles_lexemes, t.flatMap_chars_lexemes, Nat.zero_add]
  · rcases List.mem_append.1 hl with hl | hl
    · exact ⟨(0, t.first), List.mem_cons_self,
        Lexeme.isRunOf_of_mem [] (.inl (by simp)) hl hk⟩
    · obtain ⟨cut, hcut, h⟩ := Lexeme.isRunOf_of_mem_ofSegments hl hk
      exact ⟨cut, List.mem_cons_of_mem _ hcut, h⟩
  · rw [filter_interpolation_lexemes, List.map_map]
    rfl
  · simp only [hscan]
    rw [lexemes, Lexeme.ofSegments_eq]
    rfl
  · simp only [ofText_lexemes, Lexeme.ofSegment_shift, Nat.zero_add]
    rw [lexemes, Lexeme.ofSegments_eq]
    rfl
  · rw [ofText_lexemes, ofText_lexemes, ofText_lexemes, String.toList_append,
      Lexeme.ofSegment_append_join, Lexeme.ofSegment_shift]

end Template

end RegexLiteral
