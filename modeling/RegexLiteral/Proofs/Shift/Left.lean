import RegexLiteral.Proofs.Location.Quiet
import RegexLiteral.Proofs.Shift.Alternative

/-!
# What stands to the left

What has been accepted does not influence what follows it. Behind accepted alternatives and a pipe
everything is read as behind the opening slash, and behind a closing slash as flags alone: with the
same result, and those alternatives in front of it, or with the same error further right
(`parsePattern_behind`). That is so for one alternative, and rows of alternatives are put together
from single ones (`Continues.append`).
-/

namespace RegexLiteral

open Written

/-! ## Behind accepted alternatives -/

/-- Behind a slash and `cs`, which stands for the alternatives of `p`, reading goes on as it begins:
behind a pipe as behind the opening slash, and behind a slash as at the beginning of flags. -/
structure Continues (cs : List Char) (p : Pattern) : Prop where
  pipe : ∀ rs, parsePattern (String.ofList ('/' :: (cs ++ '|' :: rs)))
    = ((parsePattern (String.ofList ('/' :: rs))).map p.before).mapError
      (Failure.shift (byteSize cs + 1))
  slash : ∀ rs, parsePattern (String.ofList ('/' :: (cs ++ '/' :: rs)))
    = ((parseFlags (String.ofList rs)).map p.withFlags).mapError
      (Failure.shift (byteSize cs + 2))

section Continues

variable {cs ds : List Char} {p q : Pattern}

theorem continues_single {w : Written.Alternative} (hw : w.items = cs.map .char)
    (hcs : ∀ c ∈ cs, ¬ isLineTerminator c) (f : Flags) : Continues cs (.single w.tree f) where
  pipe rs := by
    obtain ⟨spliced, h⟩ := Parser.behindSlash_pipe (f := f) hw hcs rs
    rw [Parser.parsePattern_eq, Parser.parsePattern_eq, h]
    exact Parser.outcome_ending _ _ _
  slash rs := by
    obtain ⟨spliced, h⟩ := Parser.behindSlash_slash (f := f) hw hcs rs
    rw [Parser.parsePattern_eq, Parser.parseFlags_eq, h]
    exact Parser.outcome_ending _ _ _

/-- What continues behind `cs` and behind `ds` does so behind both with a pipe between them. -/
theorem Continues.append (hp : Continues cs p) (hq : Continues ds q) :
    Continues (cs ++ '|' :: ds) (p.before q) where
  pipe rs := by
    have hsize : byteSize ds + 1 + (byteSize cs + 1) = byteSize (cs ++ '|' :: ds) + 1 := by
      rw [byteSize_append, byteSize_cons]
      change _ = byteSize cs + (1 + byteSize ds) + 1
      omega
    rw [List.append_assoc, List.cons_append, hp.pipe, hq.pipe]
    cases parsePattern (String.ofList ('/' :: rs)) with
    | ok t => exact congrArg Except.ok (p.before_before q t).symm
    | error e => exact congrArg Except.error (by rw [Failure.shift_shift, hsize])
  slash rs := by
    have hsize : byteSize ds + 2 + (byteSize cs + 1) = byteSize (cs ++ '|' :: ds) + 2 := by
      rw [byteSize_append, byteSize_cons]
      change _ = byteSize cs + (1 + byteSize ds) + 2
      omega
    rw [List.append_assoc, List.cons_append, hp.pipe, hq.slash]
    cases parseFlags (String.ofList rs) with
    | ok f => rfl
    | error e => exact congrArg Except.error (by rw [Failure.shift_shift, hsize])

/-- By induction on the alternatives behind the first one. -/
theorem continues_tree (f : Written.Flags) : ∀ (ws : List Written.Alternative)
    (w : Written.Alternative) (cs : List Char), (∀ c ∈ cs, ¬ isLineTerminator c) →
    w.items ++ ws.flatMap (fun a => .char '|' :: a.items) = cs.map .char →
    Continues cs (Written.Pattern.tree ⟨w, ws, f⟩)
  | [], w, cs, hcs, hw => by
    rw [List.flatMap_nil, List.append_nil] at hw
    exact continues_single hw hcs f.tree
  | v :: vs, w, cs, hcs, hw => by
    obtain ⟨ds, es, rfl, hds, hes⟩ := List.map_eq_append_iff.1 hw.symm
    rw [List.flatMap_cons, List.cons_append] at hes
    obtain ⟨_, es, rfl, hpipe, hrest⟩ := List.map_eq_cons_iff.1 hes
    obtain rfl := Item.char.inj hpipe
    have hfirst : Continues ds (.single w.tree f.tree) :=
      continues_single hds.symm (fun c hc => hcs c (List.mem_append_left _ hc)) f.tree
    have hothers := continues_tree f vs v es
      (fun c hc => hcs c (List.mem_append_right _ (List.mem_cons_of_mem _ hc))) hrest.symm
    exact hfirst.append hothers

end Continues

/-- No slash stands among flags. -/
theorem Written.Flags.slash_not_mem_items (f : Written.Flags) : .char '/' ∉ f.items := by
  cases f with
  | letters fs _ =>
    intro h
    obtain ⟨f, -, hf⟩ := List.mem_map.1 h
    have hletter : f.letter ≠ '/' := by cases f <;> decide
    exact hletter (Item.char.inj hf)
  | node f => simp [items]

/-- The last slash of a source closes the literal. -/
theorem Written.Flags.append_close_inj {f : Written.Flags} {is js : List Item}
    (h : is ++ .char '/' :: f.items = js ++ [.char '/']) : is = js := by
  rcases List.eq_nil_or_concat f.items with hf | ⟨init, last, hf⟩
  · rw [hf] at h
    exact List.append_cancel_right h
  · rw [List.concat_eq_append] at hf
    rw [hf, ← List.cons_append, ← List.append_assoc] at h
    obtain ⟨rfl, -⟩ := List.cons.inj (List.append_inj_right' h rfl)
    refine absurd ?_ f.slash_not_mem_items
    rw [hf]
    exact List.mem_append_right _ List.mem_cons_self

theorem continues_of_parsePattern {a : String} {A : Pattern}
    (h : parsePattern ("/" ++ a ++ "/") = .ok A) : Continues a.toList A := by
  obtain ⟨hs, ⟨first, rest, f⟩, hw, -, rfl⟩ := (parsePattern_eq_ok_iff _ _).1 h
  have hlist : ("/" ++ a ++ "/").toList = '/' :: (a.toList ++ ['/']) := by
    simp [String.toList_append]
  rw [hlist] at hs hw
  have hbody : (first.items ++ rest.flatMap fun a => .char '|' :: a.items) ++ .char '/' :: f.items
      = a.toList.map .char ++ [.char '/'] := by
    have := (List.cons.inj hw).2
    rwa [List.map_append] at this
  exact continues_tree f rest first a.toList
    (fun c hc => hs c (List.mem_cons_of_mem _ (List.mem_append_left _ hc)))
    (Written.Flags.append_close_inj hbody)

/-- Flags are read without remarks. -/
theorem related_of_parseFlags {s : String} {e : ParseError}
    (h : parseFlags s = .error (.error e)) : e.related = [] := by
  let t := Template.ofText s
  have hquiet : Parser.Quiet t.source.toList Parser.wholeFlags :=
    Parser.quiet_flags.bind fun _ => Parser.quiet_finish.bind fun _ => Parser.quiet_pure _
  have hrun := hquiet (t.cursor none) ⟨rfl, Cursor.placed_cursor _ _⟩
  rcases Template.run_of_yields hrun with ⟨f, c, hok, -⟩ | ⟨e', he', hbare⟩
  · cases h.symm.trans hok
  · obtain rfl := Except.error.inj (h.symm.trans he')
    exact hbare.related

/-- What was accepted to the left does not influence the rest: behind accepted alternatives and a
pipe stands what could stand behind the opening slash, and behind a closing slash what could be
flags by itself. The errors are the same further right, and only the opening slash stays. -/
theorem parsePattern_behind {a : String} {A : Pattern}
    (h : parsePattern ("/" ++ a ++ "/") = .ok A) (r : String) :
    parsePattern ("/" ++ a ++ "|" ++ r)
        = ((parsePattern ("/" ++ r)).map A.before).mapError
          (Failure.shift (byteSize a.toList + 1))
      ∧ parsePattern ("/" ++ a ++ "/" ++ r)
        = ((parseFlags r).map A.withFlags).mapError (Failure.shift (byteSize a.toList + 2))
      ∧ ∀ e, parseFlags r = .error (.error e) → e.related = [] := by
  have hslash : "/" ++ r = String.ofList ('/' :: r.toList) := String.toList_inj.1 (by simp)
  have hbehind (x : Char) : "/" ++ a ++ String.singleton x ++ r
      = String.ofList ('/' :: (a.toList ++ x :: r.toList)) := String.toList_inj.1 (by simp)
  have hcontinues := continues_of_parsePattern h
  refine ⟨?_, ?_, fun e => related_of_parseFlags⟩
  · have hpipe := hcontinues.pipe r.toList
    rwa [← hbehind, ← hslash] at hpipe
  · have hclose := hcontinues.slash r.toList
    rwa [← hbehind, String.ofList_toList] at hclose

/-- Behind two alternatives: a literal, a class that is never closed, a literal that is never
closed, and flags with a letter twice. -/
theorem parsePattern_behind_samples : ∃ A B, parsePattern ("/" ++ "x|[/]" ++ "/") = .ok A
    ∧ parsePattern ("/" ++ "y/g") = .ok B
    ∧ parsePattern ("/" ++ "x|[/]" ++ "|" ++ "y/g") = .ok (A.before B)
    ∧ parsePattern ("/" ++ "x|[/]" ++ "|" ++ "[b")
      = .error (.error ⟨.unclosedClass, ⟨9, 9⟩, [⟨⟨7, 8⟩, .classOpened⟩]⟩)
    ∧ parsePattern ("/" ++ "x|[/]" ++ "|" ++ "y")
      = .error (.error ⟨.noClosingSlash, ⟨8, 8⟩, [⟨⟨0, 1⟩, .patternOpened⟩]⟩)
    ∧ parsePattern ("/" ++ "x|[/]" ++ "/" ++ "gg")
      = .error (.error ⟨.duplicateFlag "g", ⟨8, 9⟩, []⟩) := by
  have hclass : parsePattern ("/" ++ "[b")
      = .error (.error ⟨.unclosedClass, ⟨3, 3⟩, [⟨⟨1, 2⟩, .classOpened⟩]⟩) := by decide +kernel
  have hclosing : parsePattern ("/" ++ "y")
      = .error (.error ⟨.noClosingSlash, ⟨2, 2⟩, [⟨⟨0, 1⟩, .patternOpened⟩]⟩) := by decide +kernel
  have hflags : parseFlags "gg" = .error (.error ⟨.duplicateFlag "g", ⟨1, 2⟩, []⟩) := by
    decide +kernel
  have hleft : (parsePattern ("/" ++ "x|[/]" ++ "/")).isOk = true := by decide +kernel
  have hright : (parsePattern ("/" ++ "y/g")).isOk = true := by decide +kernel
  cases hA : parsePattern ("/" ++ "x|[/]" ++ "/") with
  | error e =>
    rw [hA] at hleft
    cases hleft
  | ok A =>
    cases hB : parsePattern ("/" ++ "y/g") with
    | error e =>
      rw [hB] at hright
      cases hright
    | ok B =>
      refine ⟨A, B, rfl, rfl, (parsePattern_behind hA "y/g").1.trans ?_,
        (parsePattern_behind hA "[b").1.trans ?_, (parsePattern_behind hA "y").1.trans ?_,
        (parsePattern_behind hA "gg").2.1.trans ?_⟩
      · rw [hB]
        rfl
      · rw [hclass]
        rfl
      · rw [hclosing]
        rfl
      · rw [hflags]
        rfl

end RegexLiteral
