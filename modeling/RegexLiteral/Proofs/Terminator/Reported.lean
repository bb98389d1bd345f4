import RegexLiteral.Proofs.Location.Located
import RegexLiteral.Proofs.Terminator.Heeding

/-!
# Line terminators are reported

A source with line terminators is never read. An error whose range covers one says so, and its range
is the whole run in which it stands, within one segment. The only exception are line terminators
right behind embedded flags: there anything but the end is refused as flags that are mixed
(`Template.terminators_reported`).
-/

namespace RegexLiteral

/-- The character `x` stands somewhere in the text, within the range. -/
def Span.Covers (s : Span) (cs : List Char) (x : Char) : Prop :=
  ∃ before after, cs = before ++ x :: after ∧ s.start ≤ byteSize before
    ∧ byteSize before + x.utf8Size ≤ s.stop

namespace Template

variable {t : Template} {production : Production} {fuel : Option Nat}

/-- The range is that of line terminators in one segment, of as many as follow each other there. -/
def IsRun (t : Template) (s : Span) : Prop :=
  ∃ cut ∈ (0 :: t.boundaries).zip t.segments, ∃ (l : Lexeme) (before after : List Char),
    l.IsRunOf cut.1 cut.2.toList before after ∧ s = l.span

theorem isRun_span {l : Lexeme} (hl : l ∈ t.lexemes) (hk : l.kind = .garbage) :
    t.IsRun l.span := by
  obtain ⟨cut, hcut, before, after, hrun⟩ := exists_isRunOf hl hk
  exact ⟨cut, hcut, l, before, after, hrun, rfl⟩

theorem ClearUpTo.not_isLineTerminator {s : Span} {x : Char} (h : t.ClearUpTo s.stop)
    (hx : s.Covers t.source.toList x) : ¬ isLineTerminator x := by
  obtain ⟨before, after, hsource, -, hstop⟩ := hx
  have hpos := x.utf8Size_pos
  exact h before x after hsource (by omega)

theorem not_isLineTerminator_of_parse {n : Node} (h : t.parse production fuel = .ok n) {x : Char}
    (hx : x ∈ t.source.toList) : ¬ isLineTerminator x := by
  obtain ⟨w, -, hd, -, -⟩ := parse_eq_ok_iff.1 h
  have hsource := toList_source_of_items (hd.items.trans (List.append_nil _).symm)
  rw [hsource, List.flatMap_nil, List.append_nil] at hx
  obtain ⟨i, hi, hx⟩ := List.mem_flatMap.1 hx
  exact i.not_isLineTerminator (hd.clean i hi) hx

/-- What is reported of line terminators. An error that covers one covers the run of it, and nothing
else. It is lexical, unless the run stands right behind embedded flags; then the flags are called
mixed. Every lexical error is one of these, and nothing is read where a line terminator is. -/
theorem terminators_reported (t : Template) (production : Production) (fuel : Option Nat) :
    (∀ e, t.parse production fuel = .error (.error e) →
      (∀ x, isLineTerminator x → e.span.Covers t.source.toList x →
        t.IsRun e.span
          ∧ (¬ t.FlagsBefore e.span.start → e.kind = .lexical
            ∧ e.message = "line terminators cannot appear in a pattern")
          ∧ (t.FlagsBefore e.span.start → e.cause = .mixedFlags))
      ∧ (e.kind = .lexical → t.IsRun e.span ∧ ¬ t.FlagsBefore e.span.start))
    ∧ ((∃ x ∈ t.source.toList, isLineTerminator x) → ∀ n, t.parse production fuel ≠ .ok n) := by
  refine ⟨fun e he => ?_, fun hex n hn => ?_⟩
  · cases parse_heeds he with
    | clear kind clear =>
      exact ⟨fun x hx hcovers => absurd hx (clear.not_isLineTerminator hcovers),
        fun hkind => absurd hkind kind⟩
    | terminator mem kind flags eq =>
      subst eq
      have hrun := isRun_span mem kind
      exact ⟨fun x _ _ => ⟨hrun, fun _ => ⟨rfl, rfl⟩, fun h => absurd h flags⟩,
        fun _ => ⟨hrun, flags⟩⟩
    | flags mem kind flags eq =>
      subst eq
      have hrun := isRun_span mem kind
      exact ⟨fun x _ _ => ⟨hrun, fun h => absurd flags h, fun _ => rfl⟩, nofun⟩
  · obtain ⟨x, hx, hterm⟩ := hex
    exact not_isLineTerminator_of_parse hn hx hterm

/-- A run in a class that ends with its segment, though another one follows it behind the cut, and
a line terminator behind embedded flags. -/
theorem terminators_reported_samples :
    let split : Template := ⟨"/[a\r\n", ["\n]/"], [.character (.ofChar 'b')]⟩
    let flags : Node := .flags ⟨FlagSet.none.insert .global, [.ofChar .keyword 'g']⟩
    let flagged := ofParts ["//", "\n"] [flags]
    (split.parse .pattern none = .error (.error ⟨.lineTerminator, ⟨3, 5⟩, []⟩)
        ∧ split.IsRun ⟨3, 5⟩ ∧ ¬ split.FlagsBefore 3)
      ∧ (flagged.parse .pattern none = .error (.error ⟨.mixedFlags, ⟨2, 3⟩, []⟩)
        ∧ flagged.IsRun ⟨2, 3⟩)
      ∧ ∀ n, split.parse .pattern (some 2) ≠ .ok n := by
  intro split flags flagged
  have hsplit : split.parse .pattern none = .error (.error ⟨.lineTerminator, ⟨3, 5⟩, []⟩) := by
    decide +kernel
  have hflagged : flagged.parse .pattern none = .error (.error ⟨.mixedFlags, ⟨2, 3⟩, []⟩) := by
    decide +kernel
  have hcovers : (⟨2, 3⟩ : Span).Covers flagged.source.toList '\n' :=
    ⟨['/', '/'], [], by decide +kernel, by decide, by decide⟩
  have hterm : ∃ x ∈ split.source.toList, isLineTerminator x := ⟨'\r', by decide +kernel, rfl⟩
  exact ⟨⟨hsplit, ((terminators_reported split .pattern none).1 _ hsplit).2 rfl⟩,
    ⟨hflagged, (((terminators_reported flagged .pattern none).1 _ hflagged).1 '\n' rfl hcovers).1⟩,
    (terminators_reported split .pattern (some 2)).2 hterm⟩

/-- Behind embedded flags a line terminator is refused as if it were a flag letter. -/
theorem terminator_behind_flags :
    let flags : Node := .flags ⟨FlagSet.none.insert .global, [.ofChar .keyword 'g']⟩
    let t := ofParts ["//", "\n"] [flags]
    t.parse .pattern none = .error (.error ⟨.mixedFlags, ⟨2, 3⟩, []⟩)
      ∧ (⟨2, 3⟩ : Span).Covers t.source.toList '\n' ∧ isLineTerminator '\n'
      ∧ Cause.mixedFlags.kind ≠ .lexical := by
  refine ⟨by decide +kernel, ⟨['/', '/'], [], ?_, ?_, ?_⟩, rfl, nofun⟩ <;> decide +kernel

end Template

end RegexLiteral
