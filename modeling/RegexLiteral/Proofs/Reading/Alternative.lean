import RegexLiteral.Parse.Literal
import RegexLiteral.Proofs.Reading.Element

/-!
# Reading alternatives

An alternative is read element by element up to a slash, a pipe or the end, and no sigil begins
where an element does. Further alternatives follow as long as there are pipes.
-/

namespace RegexLiteral

namespace Parser

open Written

variable {c c' : Cursor} {fails : Failure → Prop} {x : List Item}

theorem contains_alternativeEnds_iff :
    KindSet.alternativeEnds.contains (c.kindAt 0) = true ↔ EndsAlternative c.items := by
  have hmem {k : Kind} : KindSet.alternativeEnds.contains k = true
      ↔ k = .eof ∨ ∃ a ∈ ['/', '|'], k.char? = some a := by
    cases k <;> simp [KindSet.alternativeEnds, KindSet.contains, Kind.char?]
  rw [hmem]
  constructor
  · rintro (hk | ⟨a, ha, hk⟩)
    · exact .inl (Cursor.kindAt_eq_eof hk)
    · exact .inr ⟨a, ha, Cursor.exists_char_of_kindAt rfl hk⟩
  · rintro (hc | ⟨a, ha, rest, hc⟩)
    · exact .inl (Cursor.kindAt_nil hc)
    · have hchar : ∀ a ∈ ['/', '|'], (Item.char a).kind.char? = some a := by
        simp [Item.kind, Kind.ofChar, Kind.char?]
      exact .inr ⟨a, ha, by rw [Cursor.kindAt_zero hc]; exact hchar a ha⟩

/-! ## Elements in a row -/

/-- What has to stand at the cursor for an alternative to be read to its end. -/
def AlternativeAhead (c : Cursor) : Prop :=
  ∃ (es : List Written.Element) (rest : List Item), Fits es
    ∧ c.CanRead (es.flatMap Written.Element.items) rest ∧ EndsAlternative rest

theorem AlternativeAhead.looked (h : AlternativeAhead c) : AlternativeAhead c.looked := by
  obtain ⟨es, rest, hes, h, hrest⟩ := h
  exact ⟨es, rest, hes, Cursor.canRead_looked.2 h, hrest⟩

/-- Where an alternative does not end, its first element stands, and the others follow. -/
theorem AlternativeAhead.cons (h : AlternativeAhead c) (hend : ¬ EndsAlternative c.items) :
    ∃ e es rest, Fits (e :: es) ∧ EndsAlternative rest
      ∧ c.CanRead (e.items ++ es.flatMap Written.Element.items) rest := by
  obtain ⟨_ | ⟨e, es⟩, rest, hes, h, hrest⟩ := h
  · rw [h.items] at hend
    exact absurd hrest hend
  · exact ⟨e, es, rest, hes, hrest, h⟩

theorem AlternativeAhead.elementAhead (h : AlternativeAhead c) (hend : ¬ EndsAlternative c.items) :
    ElementAhead c := by
  obtain ⟨e, es, rest, hes, hrest, h⟩ := h.cons hend
  refine ⟨?_, e, _, h.left⟩
  rw [h.items]
  exact hes.not_beginsSigil hrest

theorem nextElement_yields (hreg : c.Regular) (hl : 10 ≤ c.looks)
    (hf : FailsUnless (AlternativeAhead c) fails) :
    Yields nextElement c (fun r c' =>
      match r with
      | none => EndsAlternative c.items ∧ c' = c.looked
      | some e => ∃ w : Written.Element, e = w.tree ∧ c.Reaches w.items c' ∧ 10 ≤ c'.looks
        ∧ ¬ BeginsSigil c.items ∧ ¬ BeginsSigil c'.items
        ∧ FailsUnless (AlternativeAhead c') fails) fails := by
  refine isAtAny_bind (by omega) ?_
  split
  · rename_i hk
    exact yields_pure ⟨contains_alternativeEnds_iff.1 hk, rfl⟩
  rename_i hk
  have hend : ¬ EndsAlternative c.items := fun h => hk (contains_alternativeEnds_iff.2 h)
  refine (element_yields (c := c.looked) (by simpa using hk) ⟨hreg.placed, hreg.delimited⟩ ?_
    (hf.mono fun h => h.looked.elementAhead hend)).bind ?_
  · rw [Cursor.looks_looked]
    omega
  intro _ c₁ hpost
  obtain ⟨e, he, rfl, hr₁, hl₁, hsigil⟩ := hpost
  rw [Cursor.looked_reaches] at hr₁
  refine Yields.map ((repeated_yields he (hreg.reaches hr₁).placed hl₁ ?_).mono ?_)
  · refine hf.mono fun h => ?_
    obtain ⟨e', es, rest, hes, hrest, h⟩ := h.cons hend
    have hi := h.items.symm.trans hr₁.items
    rw [List.append_assoc] at hi
    obtain ⟨used, hrep, hused⟩ := he.exists_repeats hi
    rw [hrep.items_eq, List.append_assoc] at h
    exact ⟨used, e', _, hrep, (h.step hr₁).left, hes.2.not_beginsSigil hrest⟩
  · intro _ c₂ hpost
    obtain ⟨used, e', hrep, rfl, hr₂, hsigil₂, hl₂⟩ := hpost
    have hr : c.Reaches e'.items c₂ := by
      rw [hrep.items_eq]
      exact hr₁.trans hr₂
    refine ⟨e', rfl, hr, by omega, hsigil, hsigil₂, hf.mono fun h => ?_⟩
    obtain ⟨f, es, rest, hes, hrest, h⟩ := h.cons hend
    have hi := h.items.symm.trans hr.items
    rw [List.append_assoc] at hi
    obtain ⟨rfl, -⟩ := Element.items_append_inj (hes.2.not_beginsSigil hrest) hsigil₂ hi
    exact ⟨es, rest, hes.2, h.step hr, hrest⟩

theorem alternative_yields (hreg : c.Regular) (hl : 10 ≤ c.looks)
    (hf : FailsUnless (AlternativeAhead c) fails) :
    Yields alternative c (fun a c' => ∃ w : Written.Alternative, a = w.tree
      ∧ c.Reaches w.items c' ∧ EndsAlternative c'.items ∧ 9 ≤ c'.looks) fails := by
  refine (collect_yields
    (I := fun _ c => c.Regular ∧ 10 ≤ c.looks ∧ FailsUnless (AlternativeAhead c) fails)
    (P := fun _ c es c' => ∃ ws : List Written.Element, es = ws.map Written.Element.tree
      ∧ Fits ws ∧ c.Reaches (ws.flatMap Written.Element.items) c' ∧ EndsAlternative c'.items
      ∧ 9 ≤ c'.looks) ?_ (x := ()) ⟨hreg, hl, hf⟩).bind ?_
  · intro _ c hpost
    obtain ⟨hreg, hl, hf⟩ := hpost
    refine (nextElement_yields hreg hl hf).mono ?_
    rintro (_ | e) c' h
    · obtain ⟨hend, rfl⟩ := h
      refine ⟨[], rfl, trivial, Cursor.reaches_looked.2 (Cursor.Reaches.refl c), hend, ?_⟩
      rw [Cursor.looks_looked]
      omega
    · obtain ⟨w, rfl, hr, hl', hsigil, -, hf'⟩ := h
      refine ⟨hr.length_lt ?_, (), ⟨hreg.reaches hr, hl', hf'⟩, ?_⟩
      · intro hnil
        exact w.items_ne_nil (x := []) (by rw [hnil, List.append_nil])
      intro _ c'' hpost
      obtain ⟨ws, rfl, hws, hr', hend, hl''⟩ := hpost
      refine ⟨w :: ws, rfl, ⟨fun hob => hsigil (.inr ?_), hws⟩, hr.trans hr', hend, hl''⟩
      rw [(hr.trans hr').items]
      exact hob.mono
  · intro _ c' h
    obtain ⟨ws, rfl, hws, h⟩ := h
    exact yields_pure ⟨⟨ws, hws⟩, rfl, h⟩

/-! ## Alternatives in a row -/

/-- What has to stand at the cursor behind an alternative for a literal to be read to its end. -/
def RestAhead (c : Cursor) : Prop :=
  ∃ (as : List Written.Alternative) (f : Written.Flags),
    c.CanRead (as.flatMap (fun a => .char '|' :: a.items) ++ .char '/' :: f.items) []

theorem RestAhead.looked (h : RestAhead c) : RestAhead c.looked := by
  obtain ⟨as, f, h⟩ := h
  exact ⟨as, f, Cursor.canRead_looked.2 h⟩

theorem RestAhead.pipe (h : RestAhead c) (hk : c.kindAt 0 = .pipe) :
    ∃ (a : Written.Alternative) (as : List Written.Alternative) (f : Written.Flags),
      c.CanRead (.char '|' :: (a.items
        ++ (as.flatMap (fun a => .char '|' :: a.items) ++ .char '/' :: f.items))) [] := by
  obtain ⟨_ | ⟨a, as⟩, f, h⟩ := h
  · cases (Cursor.kindAt_zero h.items).symm.trans hk
  · rw [List.flatMap_cons, List.append_assoc] at h
    exact ⟨a, as, f, h⟩

theorem nextAlternative_yields (hreg : c.Regular) (hl : 9 ≤ c.looks)
    (hf : FailsUnless (RestAhead c) fails) :
    Yields nextAlternative c (fun r c' =>
      match r with
      | none => c.kindAt 0 ≠ .pipe ∧ c' = c.looked
      | some r => ∃ w : Written.Alternative, r = (.ofChar .punctuator '|', w.tree)
        ∧ c.Reaches (.char '|' :: w.items) c' ∧ 9 ≤ c'.looks ∧ EndsAlternative c'.items
        ∧ FailsUnless (RestAhead c') fails) fails := by
  refine isAt_bind (by omega) ?_
  split
  case isFalse hk => exact yields_pure ⟨by simpa using hk, rfl⟩
  case isTrue hk =>
  have hk := eq_of_beq hk
  obtain ⟨x, hc⟩ := Cursor.exists_char_of_kindAt hk rfl
  have hf := hf.mono fun h => h.pipe hk
  have hm : c.MayFail fails := by
    refine hf.mayFail fun h => ?_
    obtain ⟨_, _, _, h⟩ := h
    exact ⟨_, _, _, h⟩
  refine (token_char_yields (c := c.looked) .punctuator hc ?_ (Cursor.mayFail_looked.2 hm)).bind ?_
  · rw [Cursor.looks_looked]
    omega
  intro _ c₁ hpost
  obtain ⟨rfl, hr₁, hl₁⟩ := hpost
  rw [Cursor.looked_reaches] at hr₁
  refine (alternative_yields (hreg.reaches hr₁) (by omega) (hf.mono ?_)).bind ?_
  · intro h
    obtain ⟨⟨es, hes⟩, as, f, h⟩ := h
    refine ⟨es, _, hes, (h.step (u := [_]) hr₁).left, ?_⟩
    rw [List.append_nil]
    exact endsAlternative_rest as f.items
  intro _ c₂ hpost
  obtain ⟨w, rfl, hr₂, hend, hl₂⟩ := hpost
  have hr := hr₁.trans hr₂
  refine yields_pure ⟨w, rfl, hr, hl₂, hend, hf.mono ?_⟩
  intro h
  obtain ⟨a, as, f, h⟩ := h
  have h₁ := h.step (u := [_]) hr₁
  have hi := h₁.items.symm.trans hr₂.items
  rw [List.append_nil] at hi
  obtain ⟨rfl, -⟩ := Alternative.items_append_inj (endsAlternative_rest as f.items) hend hi
  exact ⟨as, f, h₁.step hr₂⟩

theorem alternatives_yields (hreg : c.Regular) (hl : 9 ≤ c.looks) (hend : EndsAlternative c.items)
    (hf : FailsUnless (RestAhead c) fails) :
    Yields (collect nextAlternative) c (fun rs c' => ∃ ws : List Written.Alternative,
      rs = ws.map (fun w => (Token.ofChar .punctuator '|', w.tree))
        ∧ c.Reaches (ws.flatMap fun w => .char '|' :: w.items) c' ∧ 8 ≤ c'.looks
        ∧ c'.kindAt 0 ≠ .pipe ∧ EndsAlternative c'.items
        ∧ FailsUnless (RestAhead c') fails) fails := by
  refine collect_yields (I := fun _ c => c.Regular ∧ 9 ≤ c.looks ∧ EndsAlternative c.items
      ∧ FailsUnless (RestAhead c) fails)
    (P := fun _ c rs c' => ∃ ws : List Written.Alternative,
      rs = ws.map (fun w => (Token.ofChar .punctuator '|', w.tree))
        ∧ c.Reaches (ws.flatMap fun w => .char '|' :: w.items) c' ∧ 8 ≤ c'.looks
        ∧ c'.kindAt 0 ≠ .pipe ∧ EndsAlternative c'.items ∧ FailsUnless (RestAhead c') fails)
    ?_ (x := ()) ⟨hreg, hl, hend, hf⟩
  intro _ c hpost
  obtain ⟨hreg, hl, hend, hf⟩ := hpost
  refine (nextAlternative_yields hreg hl hf).mono ?_
  rintro (_ | r) c' h
  · obtain ⟨hk, rfl⟩ := h
    refine ⟨[], rfl, Cursor.reaches_looked.2 (Cursor.Reaches.refl c), ?_, hk, hend,
      hf.mono RestAhead.looked⟩
    rw [Cursor.looks_looked]
    omega
  · obtain ⟨w, rfl, hr, hl', hend', hf'⟩ := h
    refine ⟨hr.length_lt (by simp), (), ⟨hreg.reaches hr, hl', hend', hf'⟩, ?_⟩
    intro _ c'' h
    obtain ⟨ws, rfl, hr', h⟩ := h
    exact ⟨w :: ws, rfl, hr.trans hr', h⟩

end Parser

end RegexLiteral
