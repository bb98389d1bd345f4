import RegexLiteral.Proofs.Beginning
import RegexLiteral.Proofs.Reading.Class

/-!
# Where reading stops

On a source without cuts every failure is an error at some item. `Stops` says of such an error what
has been read up to the beginning of its range, and why reading cannot go on: the source ends there,
a line terminator stands there, or what has been read is doomed together with what the range shows
(`Reason`). It speaks of the items at a cursor and of the byte where they start, so it can be
carried back over what has been read before (`Stops.after`).
-/

namespace RegexLiteral

open Written

/-- The range `span` shows what is wrong with `v`, which stands at `start`: it reaches to the end of
`v`, or it begins in the braces that `v` ends with. -/
inductive Covers (start : Nat) (v : List Item) (span : Span) : Prop
  | whole (stop : span.stop = start + extent v)
  | braces (u : List Item) (cs : List Char) (items : v = u ++ cs.map .char) (form : BraceForm cs)
    (after : start + extent u ≤ span.start) (within : span.start < start + extent v)
    (stop : span.stop ≤ start + extent v)

theorem Covers.after {start : Nat} {u v : List Item} {span : Span}
    (h : Covers (start + extent u) v span) : Covers start (u ++ v) span := by
  cases h with
  | whole stop => exact .whole (by rw [stop, extent_append, Nat.add_assoc])
  | braces u' cs items form after within stop =>
    refine .braces (u ++ u') cs (by rw [items, List.append_assoc]) form ?_ ?_ ?_ <;>
      rw [extent_append] <;> omega

/-- Why the items `is`, which stand at `start`, are not read beyond `used`. -/
inductive Reason (start : Nat) (is : List Item) (doomed : List Item → Prop) (span : Span) :
    List Item → Prop
  | ends : Reason start is doomed span []
  | terminator {i : Item} {rest : List Item} (kind : i.kind = .garbage)
    (stop : span.stop = span.start + extent [i]) : Reason start is doomed span (i :: rest)
  | doomed {v w rest : List Item} (items : is = v ++ w) (never : doomed v)
    (covers : Covers start v span) : Reason start is doomed span rest

/-- The error is reported behind `used`, which is viable. -/
structure StopsBehind (start : Nat) (is : List Item) (viable doomed : List Item → Prop)
    (span : Span) (used rest : List Item) : Prop where
  items : is = used ++ rest
  clean : ∀ i ∈ used, i.kind ≠ .garbage
  start_eq : span.start = start + extent used
  viable : viable used
  reason : Reason start is doomed span rest

/-- The failure is an error in the items `is`, which stand at `start`. What is before its range can
be read, and what its range shows cannot. -/
def Stops (start : Nat) (is : List Item) (viable doomed : List Item → Prop) (e : Failure) : Prop :=
  ∃ (err : ParseError) (used rest : List Item), e = .error err
    ∧ StopsBehind start is viable doomed err.span used rest

namespace Item

/-- An item of a source without cuts. -/
inductive Plain : Item → Prop
  | char {c : Char} (h : ¬ isLineTerminator c) : Plain (.char c)
  | terminators {run : List Char} (h : ∃ c ∈ run, isLineTerminator c) : Plain (.terminators run)

end Item

namespace Cursor

variable {c c' : Cursor} {used u rest : List Item} {i : Item}
  {viable viable' doomed doomed' : List Item → Prop} {e : Failure} {fails : Failure → Prop}

/-- A cursor in a source without cuts, with fuel without end. -/
structure Plain (c : Cursor) : Prop extends c.Regular where
  items : ∀ i ∈ c.items, i.Plain
  fuel : c.fuel = none

theorem Plain.reaches (h : c.Plain) (hr : c.Reaches used c') : c'.Plain where
  toRegular := h.toRegular.reaches hr
  items i hi := h.items i (by rw [hr.items]; exact List.mem_append_right _ hi)
  fuel := by
    have hfuel := hr.fuel
    rw [h.fuel] at hfuel
    exact Option.map_eq_none_iff.1 hfuel.symm

theorem Plain.looked (h : c.Plain) : c.looked.Plain := ⟨⟨h.placed, h.delimited⟩, h.items, h.fuel⟩

theorem Plain.delimit {d : OpenDelimiter} (h : c.Plain)
    (hd : d.kind = .slash ∨ d.kind = .bracketOpen) :
    Plain { c with delimiters := d :: c.delimiters } where
  placed := h.placed
  delimited e he := (List.mem_cons.1 he).elim (fun h => h ▸ hd) (h.delimited e)
  items := h.items
  fuel := h.fuel

theorem Plain.undelimit (h : c.Plain) :
    Plain { c with delimiters := c.delimiters.tail } where
  placed := h.placed
  delimited d hd := h.delimited d (List.mem_of_mem_tail hd)
  items := h.items
  fuel := h.fuel

theorem Plain.kindAt_ne (h : c.Plain) : c.kindAt 0 ≠ .interpolation := by
  intro hk
  obtain ⟨i, rest, hc⟩ := c.exists_item (by rw [hk]; decide)
  rw [kindAt_zero hc] at hk
  cases h.items i (by rw [hc]; exact List.mem_cons_self) with
  | char => exact Kind.ofChar_ne_interpolation _ hk
  | terminators => cases hk

/-- Without a line terminator nothing keeps the next lexeme from being taken. -/
theorem Plain.mayFail (h : c.Plain)
    (ht : c.kindAt 0 = .garbage → fails (.error ⟨.lineTerminator, c.span, []⟩)) :
    c.MayFail fails where
  terminator := ht
  fuel hf := by
    rw [h.fuel] at hf
    cases hf

theorem Plain.canRead (h : c.Plain) (hc : c.items = used ++ rest)
    (hclean : ∀ i ∈ used, i.kind ≠ .garbage) : c.CanRead used rest where
  items := hc
  clean := hclean
  fuel n hn := by
    rw [h.fuel] at hn
    cases hn

/-! ## Positions -/

theorem span_stop (hc : c.items = i :: rest) : c.span.stop = c.span.start + extent [i] := by
  have hmap := map_chars_itemsOf c.lexemes c.substitutions
  rw [show itemsOf c.lexemes c.substitutions = i :: rest from hc] at hmap
  cases hl : c.lexemes with
  | nil =>
    rw [hl] at hmap
    cases hmap
  | cons l ls =>
    rw [hl, List.map_cons, List.map_cons] at hmap
    rw [extent_cons, (List.cons.inj hmap).1, span, hl]
    rfl

/-! ## Stops -/

/-- The failure is an error in what is left. -/
abbrev Stops (c : Cursor) (viable doomed : List Item → Prop) : Failure → Prop :=
  RegexLiteral.Stops c.span.start c.items viable doomed

/-- An error behind what has been used up is an error in what was left before. -/
theorem Stops.after (h : c'.Stops viable doomed e) (hp : c.Placed) (hr : c.Reaches u c')
    (hv : ∀ used rest, c'.items = used ++ rest → viable used → viable' (u ++ used))
    (hd : ∀ v w, c'.items = v ++ w → doomed v → doomed' (u ++ v)) : c.Stops viable' doomed' e := by
  obtain ⟨err, used, rest, rfl, h⟩ := h
  have hstart := (hp.reaches hr).2
  refine ⟨err, u ++ used, rest, rfl, ?_, ?_, ?_, hv used rest h.items h.viable, ?_⟩
  · rw [hr.items, h.items, List.append_assoc]
  · exact fun i hi => (List.mem_append.1 hi).elim (hr.clean i) (h.clean i)
  · rw [h.start_eq, hstart, extent_append, Nat.add_assoc]
  · cases h.reason with
    | ends => exact .ends
    | terminator kind stop => exact .terminator kind stop
    | doomed items never covers =>
      rw [hstart] at covers
      exact .doomed (by rw [hr.items, items, List.append_assoc]) (hd _ _ items never) covers.after

/-- What holds of more is said of the same error. -/
theorem Stops.mono (h : c.Stops viable doomed e) (hv : ∀ used, viable used → viable' used)
    (hd : ∀ v, doomed v → doomed' v) : c.Stops viable' doomed' e := by
  obtain ⟨err, used, rest, he, h⟩ := h
  refine ⟨err, used, rest, he, h.items, h.clean, h.start_eq, hv used h.viable, ?_⟩
  cases h.reason with
  | ends => exact .ends
  | terminator kind stop => exact .terminator kind stop
  | doomed items never covers => exact .doomed items (hd _ never) covers

/-- The failure is an error where the source ends or a line terminator stands. -/
abbrev BreaksOff (c : Cursor) (viable : List Item → Prop) : Failure → Prop :=
  c.Stops viable fun _ => False

theorem BreaksOff.after (h : c'.BreaksOff viable e) (hp : c.Placed) (hr : c.Reaches u c')
    (hv : ∀ used, viable used → viable' (u ++ used)) : c.Stops viable' doomed e :=
  Stops.after h hp hr (fun used _ _ => hv used) fun _ _ _ => False.elim

/-- The source ends at the cursor, or a line terminator stands there. -/
theorem stops_here {cause : Cause} {related : List Related} (hv : viable [])
    (hk : c.kindAt 0 = .eof ∨ c.kindAt 0 = .garbage) :
    c.Stops viable doomed (.error ⟨cause, c.span, related⟩) := by
  cases hc : c.items with
  | nil => exact ⟨_, [], [], rfl, by rw [hc]; rfl, by simp, by simp, hv, .ends⟩
  | cons i rest =>
    rw [kindAt_zero hc] at hk
    exact ⟨_, [], i :: rest, rfl, by rw [hc]; rfl, by simp, by simp, hv,
      .terminator (hk.resolve_left i.kind_ne_eof) (span_stop hc)⟩

/-- What stands at the cursor, and begins with what the range shows, is doomed. -/
theorem stops_at {cause : Cause} {related : List Related} {v w : List Item} (hv : viable [])
    (hc : c.items = v ++ w) (hd : doomed v) (hs : Covers c.span.start v c.span) :
    c.Stops viable doomed (.error ⟨cause, c.span, related⟩) :=
  ⟨_, [], c.items, rfl, rfl, by simp, by simp, hv, .doomed hc hd hs⟩

theorem covers_sigil {z w : List Item} (hz : SigilForm z) (hc : c.items = z ++ w) :
    Covers c.span.start z c.span := by
  cases hz with
  | sign _ => exact .whole (span_stop hc)
  | @braces cs hcs =>
    obtain ⟨body, rfl, -⟩ := hcs.exists_body
    have hstop := span_stop hc
    have hpos := Char.utf8Size_pos '\x7b'
    rw [extent_cons, extent_nil] at hstop
    refine .braces [] _ rfl hcs (Nat.le_refl _) ?_ ?_ <;>
      simp only [extent_map_char, byteSize_cons, Item.chars, byteSize_nil] at hstop ⊢ <;> omega

end Cursor

namespace Parser

variable {α β : Type} {c : Cursor} {fails fails' : Failure → Prop}

/-! ## Rules for failures -/

/-- Every failure of the run of `p` from `c` is among `fails`. -/
abbrev Fails (p : Parser α) (c : Cursor) (fails : Failure → Prop) : Prop :=
  Yields p c (fun _ _ => True) fails

theorem Yields.imp {p : Parser α} {post : α → Cursor → Prop} (h : Yields p c post fails)
    (hi : ∀ e, fails e → fails' e) : Yields p c post fails' := by
  unfold Yields at h ⊢
  cases hp : p c with
  | ok a c' =>
    rw [hp] at h
    exact h
  | error e c' =>
    rw [hp] at h
    exact hi e h

theorem Yields.and {p : Parser α} {post post' : α → Cursor → Prop} (h : Yields p c post fails)
    (h' : Yields p c post' fails') : Yields p c post fun e => fails e ∧ fails' e := by
  unfold Yields at h h' ⊢
  cases hp : p c with
  | ok a c' =>
    rw [hp] at h
    exact h
  | error e c' =>
    rw [hp] at h h'
    exact ⟨h, h'⟩

/-- A sequence fails where its first part does, or behind what the first part is known to read. -/
theorem Yields.bind_fails {p : Parser α} {f : α → Parser β} {mid : α → Cursor → Prop}
    (h : Yields p c mid fails') (hp : Fails p c fails)
    (hf : ∀ a c', mid a c' → Fails (f a) c' fails) : Fails (p >>= f) c fails :=
  ((h.and hp).imp fun _ he => he.2).bind hf

/-- In a plain source nothing keeps a character from being taken that is no line terminator. -/
theorem token_plain_yields (category : Category) {a : Char} {rest : List Item} (hp : c.Plain)
    (hc : c.items = .char a :: rest) (ha : Kind.ofChar a ≠ .garbage) (hl : 0 < c.looks) :
    Yields (token category) c (fun t c' => t = .ofChar category a ∧ c.Reaches [.char a] c'
      ∧ 12 ≤ c'.looks) fails :=
  token_char_yields category hc hl (hp.mayFail fun hg =>
    absurd ((Cursor.kindAt_zero hc).symm.trans hg) ha)

/-- A repetition fails where one of its steps does: `F` is carried back over each step. -/
theorem collect_fails {step : Parser (Option α)} {I : Cursor → Prop}
    {F : Cursor → Failure → Prop} (hstep : ∀ c, I c → Yields step c (fun r c' => r.isSome →
      c'.lexemes.length < c.lexemes.length ∧ I c' ∧ ∀ e, F c' e → F c e) (F c)) (hc : I c) :
    Fails (collect step) c (F c) := by
  refine collect_yields (I := fun (_ : Unit) d => I d ∧ ∀ e, F d e → F c e)
    (P := fun _ _ _ _ => True) ?_ (x := ()) ⟨hc, fun _ he => he⟩
  intro _ d hpost
  obtain ⟨hd, hback⟩ := hpost
  refine ((hstep d hd).mono ?_).imp hback
  rintro (_ | a) c' h
  · trivial
  · obtain ⟨hlt, hc', hF⟩ := h rfl
    exact ⟨hlt, (), ⟨hc', fun e he => hback e (hF e he)⟩, fun _ _ _ => trivial⟩

end Parser

end RegexLiteral
