import RegexLiteral.Proofs.Failing.Class
import RegexLiteral.Proofs.Reading.Alternative

/-!
# Errors in alternatives

A sigil is wrong where an element should begin and behind another sigil. Between braces its numbers
can be wrong, and that is found out only when they have been read: the error is reported in the
braces, or at their beginning, and what stands before it is a row of characters if the braces are
not closed. The elements before it are the same whatever follows (`alternative_fails`).
-/

namespace RegexLiteral

namespace Parser

open Written

variable {c : Cursor} {viable doomed : List Item → Prop} {fails : Failure → Prop} {x : List Item}
  {e : Failure}

/-! ## Numbers between braces -/

theorem clean_digits {ds : List Char} (hd : ∀ d ∈ ds, Text.isDigit d) :
    ∀ i ∈ ds.map Item.char, i.kind ≠ .garbage := by
  intro i hi hk
  obtain ⟨d, hmem, rfl⟩ := List.mem_map.1 hi
  cases (Kind.ofChar_eq_digit_iff.2 (hd d hmem)).symm.trans hk

theorem number_fails {ds : List Char} (hp : c.Plain) (hc : c.items = ds.map .char ++ x)
    (hne : ds ≠ []) (hd : ∀ d ∈ ds, Text.isDigit d) (hx : NoDigit x) (hl : 10 ≤ c.looks) :
    Fails number c fun e => ∃ cause,
      e = .error ⟨cause, ⟨c.span.start, c.span.start + byteSize ds⟩, []⟩ := by
  refine get_bind ((digits_yields hc hd hx hl fun _ _ hn =>
    absurd ⟨x, hp.canRead hc (clean_digits hd)⟩ hn).bind ?_)
  intro ls c' hpost
  obtain ⟨hlex, hchars, hr, -⟩ := hpost
  obtain ⟨hle, hslice⟩ := hp.placed.slice?_eq hlex
  have hstop := hp.placed.stopOf_eq hlex
  rw [range_eq hle, pure_bind]
  rw [hchars] at hslice hstop
  rw [← hr.source] at hslice
  refine slice_bind hslice ?_
  split
  · exact yields_failAt ⟨_, by rw [hstop]⟩
  · rw [newToken_eq .character (by simpa using hne), pure_bind]
    exact yields_pure trivial

theorem upperBound_fails (n : Nat) (hx : ClosesBraces c.items) (hp : c.Plain) (hl : 9 ≤ c.looks) :
    Fails (upperBound n) c fun e => ∃ (es : List Char) (y : List Item) (cause : Cause), es ≠ []
      ∧ (∀ e ∈ es, Text.isDigit e)
      ∧ c.items = .char ',' :: (es.map .char ++ .char '\x7d' :: y)
      ∧ e = .error ⟨cause, ⟨c.span.start + byteSize [','],
        c.span.start + byteSize (',' :: es)⟩, []⟩ := by
  refine isAt_bind (by omega) ?_
  rcases hx with ⟨y, hc⟩ | ⟨es, y, he, hc⟩
  · have hk : c.kindAt 0 = .braceClose := Cursor.kindAt_zero hc
    rw [if_neg (by rw [hk]; decide)]
    exact yields_pure trivial
  have hk : c.kindAt 0 = .comma := Cursor.kindAt_zero hc
  rw [if_pos (by rw [hk]; decide)]
  refine (token_plain_yields .punctuator hp.looked hc (by decide) ?_).bind ?_
  · rw [Cursor.looks_looked]
    omega
  intro _ c₁ hpost
  obtain ⟨rfl, hr₁, hl₁⟩ := hpost
  rw [Cursor.looked_reaches] at hr₁
  have hc₁ : c₁.items = es.map .char ++ .char '\x7d' :: y := hr₁.items_eq hc
  refine isAt_bind (by omega) ?_
  cases es with
  | nil =>
    have hk₁ : c₁.kindAt 0 = .braceClose := Cursor.kindAt_zero hc₁
    rw [if_neg (by rw [hk₁]; decide)]
    exact yields_pure trivial
  | cons d es =>
    have hk₁ : c₁.kindAt 0 = .digit := by
      rw [Cursor.kindAt_zero hc₁]
      exact Kind.ofChar_eq_digit_iff.2 (he d List.mem_cons_self)
    rw [if_pos (by rw [hk₁]; decide)]
    have hp₁ := hp.reaches hr₁
    refine ((number_fails (c := c₁.looked) hp₁.looked hc₁ (by simp) he Sigil.noDigit_close
      ?_).imp ?_).bind fun _ _ _ => yields_pure trivial
    · rw [Cursor.looks_looked]
      omega
    · rintro _ ⟨cause, rfl⟩
      refine ⟨d :: es, y, cause, by simp, he, hc, ?_⟩
      have hstart₁ : c₁.looked.span.start = c.span.start + byteSize [','] :=
        (hp.placed.reaches hr₁).2
      rw [hstart₁, Nat.add_assoc, ← byteSize_append]
      rfl

/-- The failure is an error in the braces at the cursor, and its range is a part of them. -/
def BadBraces (c : Cursor) (e : Failure) : Prop :=
  ∃ (as part bs : List Char) (w : List Item) (cause : Cause), BraceForm (as ++ (part ++ bs))
    ∧ part ≠ [] ∧ c.items = (as ++ (part ++ bs)).map .char ++ w
    ∧ e = .error ⟨cause, ⟨c.span.start + byteSize as, c.span.start + byteSize (as ++ part)⟩, []⟩

theorem ClosesBraces.exists_form {ds : List Char} (hne : ds ≠ []) (hd : ∀ d ∈ ds, Text.isDigit d)
    (hx : ClosesBraces x) : ∃ (bs : List Char) (w : List Item),
      BraceForm ('\x7b' :: (ds ++ bs)) ∧ x = bs.map .char ++ w := by
  rcases hx with ⟨y, rfl⟩ | ⟨es, y, he, rfl⟩
  · exact ⟨['\x7d'], y, .exactly hne hd, rfl⟩
  by_cases hes : es = []
  · exact ⟨[',', '\x7d'], y, .atLeast hne hd, by simp [hes]⟩
  · refine ⟨',' :: es ++ ['\x7d'], y, ?_, by simp⟩
    have h := BraceForm.between hne hd hes he
    simpa using h

theorem braces_fails (hb : OpensBraces c.items) (hp : c.Plain) (hl : 0 < c.looks) :
    Fails braces c (BadBraces c) := by
  obtain ⟨ds, x, hne, hd, hx, hc⟩ := opensBraces_iff.1 hb
  refine get_bind ((token_plain_yields .punctuator hp hc (by decide) hl).bind ?_)
  intro _ c₁ hpost
  obtain ⟨rfl, hr₁, hl₁⟩ := hpost
  have hc₁ : c₁.items = ds.map .char ++ x := hr₁.items_eq hc
  have hp₁ := hp.reaches hr₁
  have hstart₁ : c₁.span.start = c.span.start + byteSize ['\x7b'] := (hp.placed.reaches hr₁).2
  have hl₁' : 10 ≤ c₁.looks := by omega
  refine (number_yields hc₁ hne hd hx.noDigit hp₁.placed hl₁' (failsUnless_isProper _)).bind_fails
    ((number_fails hp₁ hc₁ hne hd hx.noDigit hl₁').imp ?_) ?_
  · -- The first number is too large.
    rintro _ ⟨cause, rfl⟩
    obtain ⟨bs, w, hform, rfl⟩ := ClosesBraces.exists_form hne hd hx
    refine ⟨['\x7b'], ds, bs, w, cause, hform, hne, by rw [hc]; simp, ?_⟩
    rw [hstart₁, Nat.add_assoc, ← byteSize_append]
  intro _ c₂ hpost
  obtain ⟨n, hn, rfl, hr₂, hl₂⟩ := hpost
  have hr₁₂ := hr₁.trans hr₂
  have hp₂ := hp.reaches hr₁₂
  have hc₂ : c₂.items = x := by
    refine hr₂.items_eq ?_
    rw [hc₁, Number.items, hn]
  have hstart₂ : c₂.span.start = c.span.start + byteSize ('\x7b' :: ds) := by
    rw [(hp₁.placed.reaches hr₂).2, hstart₁, Number.items, hn, extent_map_char, Nat.add_assoc,
      ← byteSize_append]
    rfl
  refine (upperBound_yields n (by rw [hc₂]; exact hx) hp₂.placed hl₂
    (failsUnless_isProper _)).bind_fails ((upperBound_fails _ (by rw [hc₂]; exact hx) hp₂ hl₂).imp
      ?_) ?_
  · -- The second number is too large.
    rintro _ ⟨es, y, cause, hes, he, hc₂', rfl⟩
    refine ⟨'\x7b' :: ds ++ [','], es, ['\x7d'], y, cause, ?_, hes, ?_, ?_⟩
    · have h := BraceForm.between hne hd hes he
      simpa using h
    · rw [hc, ← hc₂, hc₂']
      simp
    · rw [hstart₂, Nat.add_assoc, Nat.add_assoc, ← byteSize_append, ← byteSize_append,
        List.append_assoc]
      rfl
  intro _ c₃ hpost
  obtain ⟨u, rfl, hr₃, hl₃, hk₃, -⟩ := hpost
  obtain ⟨y, hc₃⟩ := Cursor.exists_char_of_kindAt hk₃ rfl
  have hr := hr₁₂.trans hr₃
  refine get_bind ((token_plain_yields .punctuator (hp.reaches hr) hc₃ (by decide)
    (by omega)).bind ?_)
  intro _ c₄ hpost
  obtain ⟨rfl, -, -⟩ := hpost
  split
  · rw [sound_eq (braces_eq n u), pure_bind]
    exact yields_pure trivial
  · -- The numbers are out of order, so the range is that of the braces.
    have hle : c.span.start ≤ c₃.span.stop :=
      Nat.le_trans (hp.placed.start_le hr) c₃.span_start_le_stop
    obtain ⟨cs, hform, hcs⟩ := u.exists_form n
    have hitems : cs.map .char ++ y = c.items := by
      rw [hr.items, hc₃, hcs]
      simp
    have hstop : c₃.span.stop = c.span.start + byteSize cs := by
      rw [Cursor.span_stop hc₃, (hp.placed.reaches hr).2, Nat.add_assoc, ← extent_append,
        ← extent_map_char cs, hcs]
      simp
    rw [range_eq hle, pure_bind, hstop]
    refine yields_failAt ⟨[], cs, [], y, _, ?_, ?_, ?_, rfl⟩
    · rwa [List.append_nil]
    · obtain ⟨body, rfl, -⟩ := hform.exists_body
      simp
    · rw [← hitems, List.append_nil]
      rfl

/-! ## Sigils -/

theorem sigil_fails (hb : BeginsSigil c.items) (hp : c.Plain) (hl : 3 ≤ c.looks) :
    Fails sigil c (BadBraces c) := by
  refine isAt_bind (by omega) ?_
  split
  · rename_i hk
    have hob : OpensBraces c.items := by
      refine hb.resolve_left ?_
      intro hex
      obtain ⟨a, ha, rest, hc⟩ := hex
      have hne : ∀ a ∈ signs, (Item.char a).kind ≠ .braceOpen := by
        simp [signs, Item.kind, Kind.ofChar]
      exact hne a ha ((Cursor.kindAt_zero hc).symm.trans (eq_of_beq hk))
    refine braces_fails (c := c.looked) hob hp.looked ?_
    rw [Cursor.looks_looked]
    omega
  · rename_i hk
    have hsign : ∃ a ∈ signs, ∃ rest, c.items = .char a :: rest := by
      refine hb.resolve_right fun hob => hk ?_
      obtain ⟨rest, hc⟩ := hob.head
      exact beq_iff_eq.2 (Cursor.kindAt_zero hc)
    refine (signBounds_yields ?_).bind ?_
    · rw [Cursor.looks_looked]
      omega
    rintro (_ | ⟨min, max⟩) _ ⟨rfl, hnone, -⟩
    · exact absurd hsign (hnone rfl)
    obtain ⟨a, ha, rest, hc⟩ := hsign
    have hclean : ∀ a ∈ signs, Kind.ofChar a ≠ .garbage := by
      simp [signs, Kind.ofChar]
    refine (token_plain_yields .keyword hp.looked.looked hc (hclean a ha) ?_).bind
      fun _ _ _ => yields_pure trivial
    rw [Cursor.looks_looked, Cursor.looks_looked]
    omega

/-- Wrong numbers behind an atom doom it. What stands before them can be characters. -/
theorem BadBraces.stops {a : Written.Atom} (h : BadBraces c e) (hp : c.Plain)
    (hb : ¬ OpensBraces (a.items ++ c.items))
    (hs : ¬ ∃ (s : Written.Sigil) (rest : _), c.CanRead s.items rest) :
    c.Stops (fun used => Viable (a.items ++ used)) (fun v => Doomed (a.items ++ v)) e := by
  obtain ⟨as, part, bs, w, cause, hform, hne, hc, rfl⟩ := h
  have hne' : part ++ bs ≠ [] := by simp [hne]
  have hclean : ∀ i ∈ (as ++ (part ++ bs)).map Item.char, i.kind ≠ .garbage := by
    intro i hi hk
    obtain ⟨d, hd, rfl⟩ := List.mem_map.1 hi
    have hterm := isLineTerminator_iff.1 (Kind.ofChar_eq_garbage_iff.1 hk)
    have hd := hform.mem hd
    rcases hterm with rfl | rfl | rfl | rfl <;> revert hd <;> decide
  refine ⟨_, as.map .char, (part ++ bs).map .char ++ w, rfl, ?_, ?_, ?_, ?_, .doomed hc ?_ ?_⟩
  · rw [hc, List.map_append, List.append_assoc]
  · exact fun i hi => hclean i (by rw [List.map_append]; exact List.mem_append_left _ hi)
  · rw [extent_map_char]
  · refine (hform.viable_init hne').cons (e := .atom a) fun hob => hb ?_
    rw [hc, List.map_append, List.append_assoc, ← List.append_assoc]
    exact hob.mono
  · refine doomed_of_braces a hform fun s hs' => hs ⟨s, w, ?_⟩
    rw [hs']
    exact hp.canRead hc hclean
  · have hpos : ∀ cs : List Char, cs ≠ [] → 0 < byteSize cs
      | [], h => absurd rfl h
      | d :: ds, _ => by
        have := d.utf8Size_pos
        rw [byteSize_cons]
        omega
    have := hpos part hne
    refine .braces [] _ rfl hform ?_ ?_ ?_ <;>
      simp only [extent_nil, extent_map_char, byteSize_append] <;> omega

theorem repeated_fails {a : Written.Atom} (hp : c.Plain) (hl : 12 ≤ c.looks)
    (hb : ¬ OpensBraces (a.items ++ c.items)) : Fails (repeated (Written.Element.atom a).tree) c
      (c.Stops (fun used => Viable (a.items ++ used)) (fun v => Doomed (a.items ++ v))) := by
  refine isAtSigil_bind (by omega) (fun hsigil => ?_) fun _ => yields_pure trivial
  have hl' : 3 ≤ c.looked.looks := by
    rw [Cursor.looks_looked]
    omega
  have hbad := (sigil_yields (c := c.looked) hsigil hp.placed hl' fun _ _ hs => hs).and
    (sigil_fails hsigil hp.looked hl')
  refine (hbad.imp fun e he => he.2.stops hp.looked hb he.1).bind ?_
  intro _ c₁ hpost
  obtain ⟨s, rfl, hr, hl₁⟩ := hpost
  rw [Cursor.looked_reaches] at hr
  have hp₁ := hp.reaches hr
  -- The sigil and what is before it can be read, but no second sigil.
  have stops {cause : Cause} (hsigil : BeginsSigil c₁.items) : c.Stops
      (fun used => Viable (a.items ++ used)) (fun v => Doomed (a.items ++ v))
      (.error ⟨cause, c₁.span, []⟩) := by
    obtain ⟨z, w, hz, hc₁⟩ := hsigil.exists_form
    have h : c₁.Stops (· = []) SigilForm (.error ⟨cause, c₁.span, []⟩) :=
      Cursor.stops_at rfl hc₁ hz (Cursor.covers_sigil hz hc₁)
    refine h.after hp.placed hr ?_ fun v _ _ hv => doomed_of_two_sigils a s hv
    rintro _ rest - rfl
    have hrepeated := viable_nil.cons (e := .repeated a s) fun hob => hb ?_
    · simpa [Written.Element.items] using hrepeated
    · rw [List.append_nil, Written.Element.items] at hob
      rw [hr.items, ← List.append_assoc]
      exact hob.mono
  refine isAt_bind (by omega) ?_
  split
  · rename_i hk
    refine yields_fail (stops (.inl ⟨'?', by decide, ?_⟩))
    exact Cursor.exists_char_of_kindAt (eq_of_beq hk) rfl
  refine isAtSigil_bind (by rw [Cursor.looks_looked]; omega) (fun hsigil₁ => ?_) fun _ => ?_
  · exact yields_fail (stops hsigil₁)
  · rw [if_neg (by simp)]
    rw [show (Written.Element.atom a).tree = .atom a.tree from rfl,
      sound_eq (quantifier_eq a.tree s), pure_bind]
    exact yields_pure trivial

/-! ## Elements -/

theorem element_fails (hp : c.Plain) (hend : KindSet.alternativeEnds.contains (c.kindAt 0) = false)
    (hl : 3 ≤ c.looks) : Fails element c (c.Stops Viable Doomed) := by
  have hl' : 2 ≤ c.looked.looks := by
    rw [Cursor.looks_looked]
    omega
  have breaks {e : Failure} (he : c.BreaksOff Viable e) : c.Stops Viable Doomed e :=
    he.mono (fun _ h => h) fun _ => False.elim
  refine look_bind (by omega) ?_
  split
  · rename_i hk
    exact ((characterClass_fails hp.looked hk hl').imp fun e he => breaks he).bind
      fun _ _ _ => yields_pure trivial
  · rename_i hk
    refine ((escape_fails hp.looked hk hl').imp fun e he => breaks ?_).bind
      fun _ _ _ => yields_pure trivial
    exact he.mono (fun _ h => h.viable) fun _ h => h
  · rename_i hk
    exact absurd hk hp.kindAt_ne
  · have heof : c.kindAt 0 ≠ .eof := by
      intro hk
      rw [hk] at hend
      exact absurd hend (by decide)
    obtain ⟨i, rest, hc⟩ := Cursor.exists_item heof
    refine isAtSigil_bind (by omega) (fun hsigil => ?_) fun _ => ?_
    · obtain ⟨z, w, hz, hc'⟩ := hsigil.exists_form
      exact yields_fail
        (Cursor.stops_at viable_nil hc' hz.doomed (Cursor.covers_sigil hz hc'))
    rw [if_neg (by simp)]
    refine (literal_yields (c := c.looked.looked) hc ?_ ?_ ?_).bind
      fun _ _ _ => yields_pure trivial
    · exact (Cursor.kindAt_zero hc).symm ▸ hp.kindAt_ne
    · rw [Cursor.looks_looked]
      omega
    · exact hp.looked.looked.mayFail fun hk => Cursor.stops_here viable_nil (.inr hk)

theorem nextElement_fails (hp : c.Plain) (hl : 10 ≤ c.looks) :
    Fails nextElement c (c.Stops Viable Doomed) := by
  refine isAtAny_bind (by omega) ?_
  split
  · exact yields_pure trivial
  rename_i hk
  have hend : KindSet.alternativeEnds.contains (c.kindAt 0) = false := by simpa using hk
  have hl' : 3 ≤ c.looked.looks := by
    rw [Cursor.looks_looked]
    omega
  refine (element_yields (c := c.looked) hend hp.looked.toRegular hl'
    (failsUnless_isProper _)).bind_fails (element_fails hp.looked hend hl') ?_
  intro _ c₁ hpost
  obtain ⟨e, he, rfl, hr, hl₁, hsigil⟩ := hpost
  rw [Cursor.looked_reaches] at hr
  cases he with
  | quantifier q =>
    have hmem : Item.node (.quantifier q) ∈ c.items := by
      rw [hr.items]
      exact List.mem_cons_self
    cases hp.items _ hmem
  | atom a =>
    have hb : ¬ OpensBraces (a.items ++ c₁.items) := fun hob => hsigil (.inr (by
      rw [Cursor.items_looked, hr.items]
      exact hob))
    refine Yields.map ((repeated_fails (hp.reaches hr) hl₁ hb).imp fun e he => ?_)
    exact he.after hp.placed hr (fun _ _ _ h => h) fun _ _ _ h => h

/-- An alternative goes wrong behind what can be completed, and what is wrong cannot. -/
theorem alternative_fails (hp : c.Plain) (hl : 10 ≤ c.looks) :
    Fails alternative c (c.Stops Viable Doomed) := by
  refine (collect_fails (I := fun c => c.Plain ∧ 10 ≤ c.looks)
    (F := fun c => c.Stops Viable Doomed) ?_ ⟨hp, hl⟩).bind fun _ _ _ => yields_pure trivial
  intro c hpost
  obtain ⟨hp, hl⟩ := hpost
  refine Yields.mono (((nextElement_yields hp.toRegular hl (failsUnless_isProper _)).and
    (nextElement_fails hp hl)).imp fun _ he => he.2) ?_
  rintro (_ | e) c' h hsome
  · cases hsome
  obtain ⟨w, rfl, hr, hl', hsigil, hsigil', -⟩ := h
  refine ⟨hr.length_lt ?_, ⟨hp.reaches hr, hl'⟩, fun e he => ?_⟩
  · intro hnil
    exact w.items_ne_nil (x := []) (by rw [hnil, List.append_nil])
  · refine he.after hp.placed hr (fun used rest hc' h => h.cons fun hob => ?_)
      fun v w' hc' h => h.cons (hc' ▸ hsigil')
    refine hsigil (.inr ?_)
    rw [hr.items, hc', ← List.append_assoc]
    exact hob.mono

end Parser

end RegexLiteral
