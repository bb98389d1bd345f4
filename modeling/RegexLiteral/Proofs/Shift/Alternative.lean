import RegexLiteral.Proofs.NodeTypes
import RegexLiteral.Proofs.Shift.Advance
import RegexLiteral.Proofs.Shift.Between
import RegexLiteral.Proofs.Shift.Parser

/-!
# Behind one alternative

An alternative is read to its end whatever follows the pipe or the slash behind it
(`alternative_opened`). Behind the pipe the cursor is the partner of one that stands behind an
opening slash, and behind the closing slash the partner of one at the beginning of flags, so the
rest of the literal moves along (`behindSlash_pipe`, `behindSlash_slash`).
-/

namespace RegexLiteral

open Written

def Token.slash : Token := .ofChar .punctuator '/'

def Token.pipe : Token := .ofChar .punctuator '|'

/-- The alternatives of `p`, a pipe, and those of `q`, with the flags of `q`. -/
def Pattern.before (p q : Pattern) : Pattern :=
  { q with first := p.first, rest := p.rest ++ (.pipe, q.first) :: q.rest }

def Pattern.withFlags (p : Pattern) (f : Flags) : Pattern := { p with flags := f }

/-- One alternative between slashes. -/
def Pattern.single (a : Alternative) (f : Flags) : Pattern :=
  ⟨Token.slash.opening '/' .pattern, a, [], Token.slash.balancing, f⟩

theorem Pattern.before_before (p q r : Pattern) :
    (p.before q).before r = p.before (q.before r) := by
  unfold before
  rw [List.append_assoc]
  rfl

namespace Parser

variable {α β : Type}

/-! ## Reading one alternative -/

/-- The opening slash of a source. -/
def outermost : OpenDelimiter := ⟨.slash, ⟨0, 1⟩⟩

/-- Behind the opening slash of a source. -/
def opened (cs : List Char) : Cursor := .between ['/'] cs [outermost] 0 lookAllowance.looks

/-- An alternative is read to its end whatever follows the pipe or the slash behind it. -/
theorem alternative_opened {w : Written.Alternative} {cs : List Char} (hw : w.items = cs.map .char)
    (hcs : ∀ c ∈ cs, ¬ isLineTerminator c) {x : Char} (hx : x ∈ ['/', '|']) (rs : List Char) :
    ∃ spliced looks, alternative (opened (cs ++ x :: rs))
      = .ok w.tree (.between ('/' :: cs) (x :: rs) [outermost] spliced (looks + 3)) := by
  have hxt : ∀ c ∈ [x], ¬ isLineTerminator c := by
    rcases List.mem_pair.1 hx with rfl | rfl <;> simp [isLineTerminator]
  let c₁ := Cursor.between ('/' :: cs) ([x] ++ rs) [outermost] 0 lookAllowance.looks
  have hitems : (opened (cs ++ x :: rs)).items = w.items ++ c₁.items := by
    rw [hw]
    exact items_between hcs
  have hend : EndsAlternative c₁.items := .inr ⟨x, hx, _, items_between hxt⟩
  have hahead : AlternativeAhead (opened (cs ++ x :: rs)) := by
    refine ⟨w.elements, _, w.fits, ⟨hitems, ?_, by rintro n ⟨⟩⟩, hend⟩
    change ∀ i ∈ w.items, _
    rw [hw]
    intro i hi hk
    obtain ⟨a, ha, rfl⟩ := List.mem_map.1 hi
    exact hcs a ha (Kind.ofChar_eq_garbage_iff.1 hk)
  have hregular : (opened (cs ++ x :: rs)).Regular := regular_between (by simp [outermost])
  have hrun := alternative_yields hregular (show 10 ≤ lookAllowance.looks by decide)
    (failsUnless_false hahead)
  unfold Yields at hrun
  cases halternative : alternative (opened (cs ++ x :: rs)) with
  | error e c' =>
    rw [halternative] at hrun
    exact hrun.elim
  | ok a c' =>
    rw [halternative] at hrun
    obtain ⟨v, rfl, hr, hend', hl⟩ := hrun
    -- Of two alternatives that the same source begins with, each up to its end, there is only one.
    obtain ⟨rfl, -⟩ := Alternative.items_append_inj hend hend' (hitems.symm.trans hr.items)
    rw [hw] at hr
    obtain ⟨looks, hlooks⟩ : ∃ looks, c'.looks = looks + 3 := ⟨c'.looks - 3, by omega⟩
    have hc' := eq_between_of_reaches hcs hr
    rw [hlooks] at hc'
    exact ⟨c'.spliced, looks, congrArg _ hc'⟩

section Between

variable {read rs : List Char} {d : OpenDelimiter} {ds : List OpenDelimiter}
  {spliced looks : Nat}

/-- Behind a pipe stands another alternative. -/
theorem nextAlternative_between :
    nextAlternative (.between read ('|' :: rs) ds spliced (looks + 2))
      = (do return some (Token.pipe, ← alternative))
        (.between (read ++ ['|']) rs ds spliced lookAllowance.looks) := by
  change (isAt .pipe >>= _) _ = _
  rw [bind_eq_of_ok (isAt_between (by decide) _)]
  change (token .punctuator >>= _) _ = _
  rw [bind_eq_of_ok (token_between (by decide) _)]
  rfl

theorem alternatives_between :
    collect nextAlternative (.between read ('|' :: rs) ds spliced (looks + 2))
      = (do
        let a ← alternative
        return (Token.pipe, a) :: (← collect nextAlternative))
        (.between (read ++ ['|']) rs ds spliced lookAllowance.looks) := by
  rw [collect_eq advances_nextAlternative rfl, bind_congr_apply nextAlternative_between, bind_assoc]
  rfl

theorem no_alternatives_between :
    collect nextAlternative (.between read ('/' :: rs) ds spliced (looks + 1))
      = .ok [] (.between read ('/' :: rs) ds spliced looks) := by
  refine collect_none ?_
  change (isAt .pipe >>= _) _ = _
  rw [bind_eq_of_ok (isAt_between (by decide) _)]
  rfl

theorem closingSlash_between :
    closingSlash (.between read ('/' :: rs) (d :: ds) spliced (looks + 2))
      = .ok .slash (.between (read ++ ['/']) rs ds spliced lookAllowance.looks) := by
  change (isAt .slash >>= _) _ = _
  rw [bind_eq_of_ok (isAt_between (by decide) _)]
  change (token .punctuator >>= _) _ = _
  rw [bind_eq_of_ok (token_between (by decide) _)]
  rfl

theorem openingSlash_between :
    openingSlash (.between [] ('/' :: rs) [] spliced (looks + 2))
      = .ok .slash (.between ['/'] rs [outermost] spliced lookAllowance.looks) := by
  have hopen : openDelimiter .slash (.between [] ('/' :: rs) [] spliced (looks + 1))
      = .ok () (.between [] ('/' :: rs) [outermost] spliced (looks + 1)) := rfl
  change (look 0 >>= _) _ = _
  rw [bind_eq_of_ok (look_between (by decide))]
  change (openDelimiter .slash >>= _) _ = _
  rw [bind_eq_of_ok hopen]
  exact token_between (by decide) _

end Between

/-! ## Behind the opening slash -/

/-- The closing slash and the flags, with the alternatives that have been read before them. -/
def closing (first : Alternative) (rest : List (Token × Alternative)) : Parser Pattern := do
  let closeToken ← closingSlash
  let flags ← flags
  let p ← sound (Pattern.ofParts (Token.slash.opening '/' .pattern) (first :: rest.map Prod.snd)
    (rest.map Prod.fst) closeToken.balancing flags)
  finish
  return p

/-- What is read behind the opening slash. -/
def behindSlash : Parser Pattern := do
  let first ← alternative
  let rest ← collect nextAlternative
  closing first rest

theorem outcome_ending (m : Rebase) (f : α → β) (r : Ending α) :
    Ending.outcome (m.ending f r)
      = ((Ending.outcome r).map f).mapError (Failure.shift m.distance) := by
  cases r <;> rfl

theorem run_ofText (p : Parser α) (cs : List Char) : (Template.ofText (String.ofList cs)).run p none
    = Ending.outcome (p (.between [] cs [] 0 lookAllowance.looks)) := by
  rw [← ofText_cursor, Template.run_eq]

theorem parsePattern_eq (cs : List Char) :
    parsePattern (String.ofList ('/' :: cs)) = Ending.outcome (behindSlash (opened cs)) := by
  have hopen : openingSlash (.between [] ('/' :: cs) [] 0 lookAllowance.looks)
      = .ok .slash (opened cs) := openingSlash_between
  unfold parsePattern
  rw [run_ofText]
  unfold wholePattern pattern
  rw [bind_assoc, bind_eq_of_ok hopen]
  simp only [behindSlash, closing, bind_assoc]

theorem parseFlags_eq (cs : List Char) : parseFlags (String.ofList cs)
    = Ending.outcome (wholeFlags (.between [] cs [] 0 lookAllowance.looks)) := run_ofText _ cs

/-! ## Behind one alternative -/

section One

variable {a : Alternative} {f : Flags}

theorem checkSeparators_pipe (ts : List Token) :
    Pattern.checkSeparators (.pipe :: ts) = Pattern.checkSeparators ts := rfl

theorem check_before (p : Pattern) : ((Pattern.single a f).before p).check = p.check := by
  unfold Pattern.check
  rw [← checkSeparators_pipe p.separatorTokens]
  rfl

theorem ofParts_single : Pattern.ofParts (Token.slash.opening '/' .pattern) [a] []
    Token.slash.balancing f = .ok (.single a f) :=
  (Pattern.ofParts_rest _ _ a [] f).trans rfl

theorem ofParts_before (openToken closeToken : Token) (first : Alternative)
    (rest : List (Token × Alternative)) (flags : Flags) :
    Pattern.ofParts openToken (a :: ((Token.pipe, first) :: rest).map Prod.snd)
        (((Token.pipe, first) :: rest).map Prod.fst) closeToken flags
      = (Pattern.ofParts openToken (first :: rest.map Prod.snd) (rest.map Prod.fst) closeToken
          flags).map (Pattern.single a f).before := by
  let p : Pattern := ⟨openToken, first, rest, closeToken, flags⟩
  have hcheck : Pattern.check ⟨openToken, a, (.pipe, first) :: rest, closeToken, flags⟩ = p.check :=
    check_before (f := f) p
  rw [Pattern.ofParts_rest, Pattern.ofParts_rest, hcheck]
  cases p.check <;> rfl

variable {m : Rebase}

theorem moves_closing (first : Alternative) (rest : List (Token × Alternative)) :
    Moves m (Pattern.single a f).before (closing first rest)
      (closing a ((.pipe, first) :: rest)) := by
  refine steady_closingSlash.bind fun closeToken => steady_flags.bind fun flags => ?_
  refine (moves_sound (ofParts_before (f := f) _ _ _ _ _)).bind fun p => ?_
  exact steady_finish.bind fun _ => moves_pure rfl

theorem moves_behindSlash (hm : 0 < byteSize m.before) :
    Moves m (Pattern.single a f).before behindSlash (do
      let first ← alternative
      closing a ((.pipe, first) :: (← collect nextAlternative))) :=
  (steady_alternative hm).bind fun first => (steady_nextAlternative hm).collect.bind fun rest =>
    moves_closing first rest

theorem moves_wholeFlags : Moves m (Pattern.single a f).withFlags wholeFlags (do
    let flags ← flags
    finish
    return .single a flags) :=
  steady_flags.bind fun _ => steady_finish.bind fun _ => moves_pure rfl

end One

end Parser

/-! ## Exchanging an accepted beginning -/

namespace Rebase

variable (cs rs : List Char) (spliced : Nat)

/-- What stands behind the opening slash, and behind `cs` and a pipe. -/
def pipe : Rebase where
  before := ['/']
  instead := '/' :: cs ++ ['|']
  rest := rs
  distance := byteSize cs + 1
  byteSize_instead := by
    rw [List.cons_append, byteSize_cons, byteSize_append]
    rfl
  spliced := spliced

/-- What stands at the beginning, and behind `cs` and the closing slash. -/
def slash : Rebase where
  before := []
  instead := '/' :: cs ++ ['/']
  rest := rs
  distance := byteSize cs + 2
  byteSize_instead := by
    rw [List.cons_append, byteSize_cons, byteSize_append]
    change 1 + (byteSize cs + 1) = 0 + (byteSize cs + 2)
    omega
  spliced := spliced

theorem pipe_cursor : (pipe cs rs spliced).cursor (Parser.opened rs)
    = .between ('/' :: cs ++ ['|']) rs [Parser.outermost] spliced lookAllowance.looks :=
  (pipe cs rs spliced).cursor_between [Parser.outermost] 0 lookAllowance.looks

theorem slash_cursor : (slash cs rs spliced).cursor (.between [] rs [] 0 lookAllowance.looks)
    = .between ('/' :: cs ++ ['/']) rs [] spliced lookAllowance.looks :=
  (slash cs rs spliced).cursor_between [] 0 lookAllowance.looks

end Rebase

namespace Parser

section One

variable {w : Written.Alternative} {cs : List Char} {f : Flags}

theorem behindSlash_pipe (hw : w.items = cs.map .char) (hcs : ∀ c ∈ cs, ¬ isLineTerminator c)
    (rs : List Char) : ∃ spliced, behindSlash (opened (cs ++ '|' :: rs))
      = (Rebase.pipe cs rs spliced).ending (Pattern.single w.tree f).before
        (behindSlash (opened rs)) := by
  obtain ⟨spliced, looks, halternative⟩ := alternative_opened hw hcs (x := '|') (by simp) rs
  have hpos : 0 < byteSize (Rebase.pipe cs rs spliced).before := show 0 < byteSize ['/'] by decide
  have hmoves := moves_behindSlash (a := w.tree) (f := f) hpos (opened rs)
    (Rebase.covers_between _ _ _ _)
  rw [Rebase.pipe_cursor] at hmoves
  refine ⟨spliced, Eq.trans ?_ hmoves.1⟩
  calc behindSlash (opened (cs ++ '|' :: rs))
    _ = (collect nextAlternative >>= closing w.tree)
        (.between ('/' :: cs) ('|' :: rs) [outermost] spliced (looks + 3)) :=
      bind_eq_of_ok halternative
    _ = ((do
          let a ← alternative
          return (Token.pipe, a) :: (← collect nextAlternative)) >>= closing w.tree)
        (.between ('/' :: cs ++ ['|']) rs [outermost] spliced lookAllowance.looks) :=
      bind_congr_apply alternatives_between _
    _ = _ := by simp only [bind_assoc, pure_bind]

theorem behindSlash_slash (hw : w.items = cs.map .char) (hcs : ∀ c ∈ cs, ¬ isLineTerminator c)
    (rs : List Char) : ∃ spliced, behindSlash (opened (cs ++ '/' :: rs))
      = (Rebase.slash cs rs spliced).ending (Pattern.single w.tree f).withFlags
        (wholeFlags (.between [] rs [] 0 lookAllowance.looks)) := by
  obtain ⟨spliced, looks, halternative⟩ := alternative_opened hw hcs (x := '/') (by simp) rs
  have hmoves := moves_wholeFlags (a := w.tree) (f := f) (.between [] rs [] 0 lookAllowance.looks)
    (Rebase.covers_between (.slash cs rs spliced) _ _ _)
  rw [Rebase.slash_cursor] at hmoves
  refine ⟨spliced, Eq.trans ?_ hmoves.1⟩
  calc behindSlash (opened (cs ++ '/' :: rs))
    _ = (collect nextAlternative >>= closing w.tree)
        (.between ('/' :: cs) ('/' :: rs) [outermost] spliced (looks + 3)) :=
      bind_eq_of_ok halternative
    _ = closing w.tree []
        (.between ('/' :: cs) ('/' :: rs) [outermost] spliced (looks + 2)) :=
      bind_eq_of_ok no_alternatives_between
    _ = (do
          let flags ← flags
          let p ← sound (Pattern.ofParts (Token.slash.opening '/' .pattern) [w.tree] []
            Token.slash.balancing flags)
          finish
          return p)
        (.between ('/' :: cs ++ ['/']) rs [] spliced lookAllowance.looks) :=
      bind_eq_of_ok closingSlash_between
    _ = _ := by simp only [sound_eq ofParts_single, pure_bind]

end One

end Parser

end RegexLiteral
