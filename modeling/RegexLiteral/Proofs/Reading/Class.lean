import RegexLiteral.Parse.Class
import RegexLiteral.Proofs.ClassBody
import RegexLiteral.Proofs.Reading.Atom
import RegexLiteral.Proofs.Tiling
import RegexLiteral.Proofs.Unambiguous

/-!
# Reading character classes

The lookahead at a minus finds out whether an end of a range follows (`isAtRange_yields`), so what
is read element by element is what the derivation groups (`classElement_yields`).
-/

namespace RegexLiteral

namespace Cursor

variable {c : Cursor} {a : Char} {i : Item} {n : Node} {rest : List Item}

/-- What comes second is what comes first behind one lexeme. -/
theorem kindAt_one (h : c.items = .char a :: i :: rest) : c.kindAt 1 = i.kind := by
  rw [kindAt_eq, h]
  rfl

theorem charsAt_two {j : Item} (h : c.items = .char a :: i :: j :: rest) :
    c.charsAt 2 = j.chars := by
  rw [charsAt_eq, h]
  rfl

theorem exists_substitutions (h : c.items = .char a :: .node n :: rest) :
    ∃ ns, c.substitutions = n :: ns := by
  obtain ⟨start, piece, ls, hls, -, hchar, -⟩ := exists_lexeme h
  have h' : Cursor.items { c with lexemes := ls } = .node n :: rest := (hchar a rfl).2.symm
  obtain ⟨_, _, _, -, -, -, hnode, -⟩ := exists_lexeme h'
  obtain ⟨ns, hns, -⟩ := hnode n rfl
  exact ⟨ns, hns⟩

end Cursor

namespace Parser

open Written

variable {c c' : Cursor} {fails : Failure → Prop}

theorem isSome_character?_pair {code : Char} :
    (ClassAtom.pair code).character?.isSome = !isWordCode code := by
  cases h : isWordCode code <;> simp [ClassAtom.character?, ClassAtom.element, h]

theorem nextIsCharacter_eq {n : Node} {e : ClassElement} (h : n.classElement? = some e)
    (ns : List Node) : nextIsCharacter (n :: ns) = (ClassAtom.node n e h).character?.isSome := by
  cases n <;> simp only [Node.classElement?, Option.some.injEq, reduceCtorEq] at h <;>
    subst h <;> rfl

/-- A minus comes first, and whatever atom stands behind it can end a range. -/
def RangeAhead (is : List Item) : Prop :=
  ∃ i rest, is = .char '-' :: i :: rest ∧ i ≠ .char ']'
    ∧ ∀ (m : ClassAtom) (x : List Item), i :: rest = m.items ++ x → m.character?.isSome

/-- A minus comes first, and an atom stands behind it that can end a range. -/
def RangeWritten (is : List Item) : Prop :=
  ∃ (m : ClassAtom) (x : List Item), is = .char '-' :: (m.items ++ x) ∧ m.character?.isSome
    ∧ ∀ i ∈ m.items, i.kind ≠ .garbage

theorem not_rangeWritten {tail : List Item} (h : ∀ (m : ClassAtom) (x : List Item),
    tail = m.items ++ x → m.character?.isSome → ∃ i ∈ m.items, i.kind = .garbage) :
    ¬ RangeWritten (.char '-' :: tail) := by
  intro hw
  obtain ⟨m, x, hm, hsome, hclean⟩ := hw
  obtain ⟨i, hi, hk⟩ := h m x (List.cons.inj hm).2 hsome
  exact hclean i hi hk

/-- If whatever atom stands behind the minus ends a range or does not, this is the answer. -/
theorem rangeAhead_of_decided {i : Item} {rest : List Item} {b : Bool} (hi : i ≠ .char ']')
    (h : ∀ (m : ClassAtom) (x : List Item), i :: rest = m.items ++ x → m.character?.isSome = b) :
    (b = true → RangeAhead (.char '-' :: i :: rest))
      ∧ (b = false → ¬ RangeWritten (.char '-' :: i :: rest)) := by
  constructor
  · rintro rfl
    exact ⟨i, rest, rfl, hi, h⟩
  · rintro rfl
    refine not_rangeWritten fun m x hm hsome => ?_
    rw [h m x hm] at hsome
    cases hsome

/-- What a backslash stands for in a class is told by the character behind it. -/
theorem isSome_character?_of_slash {rest x : List Item} {m : ClassAtom}
    (hc : c.items = .char '-' :: .char '\\' :: rest) (hm : .char '\\' :: rest = m.items ++ x) :
    m.character?.isSome = !(c.charsAt 2 == ['w'] || c.charsAt 2 == ['W']) := by
  cases m with
  | char d hd => exact absurd (Item.char.inj (List.cons.inj hm).1).symm hd.2
  | pair code =>
    obtain rfl := (List.cons.inj hm).2
    rw [isSome_character?_pair, Cursor.charsAt_two hc]
    simp [Item.chars, isWordCode]
  | node n e _ => simp [ClassAtom.items] at hm

theorem isSome_character?_of_node {n : Node} {rest x : List Item} {m : ClassAtom}
    (hc : c.items = .char '-' :: .node n :: rest) (hm : .node n :: rest = m.items ++ x) :
    m.character?.isSome = nextIsCharacter c.substitutions := by
  cases m with
  | node m e he =>
    obtain ⟨ns, hns⟩ := Cursor.exists_substitutions hc
    obtain rfl := Item.node.inj (List.cons.inj hm).1
    rw [hns, nextIsCharacter_eq he]
  | char d _ => simp [ClassAtom.items] at hm
  | pair code => simp [ClassAtom.items] at hm

theorem isSome_character?_of_char {a : Char} {rest x : List Item} {m : ClassAtom} (ha : a ≠ '\\')
    (hm : .char a :: rest = m.items ++ x) : m.items = [.char a] ∧ m.character?.isSome := by
  cases m with
  | char d hd =>
    obtain rfl := Item.char.inj (List.cons.inj hm).1
    exact ⟨rfl, rfl⟩
  | pair code => exact absurd (Item.char.inj (List.cons.inj hm).1) ha
  | node n e _ => simp [ClassAtom.items] at hm

theorem rangeEndFollows_yields {tail : List Item} (hc : c.items = .char '-' :: tail)
    (hl : 0 < c.looks) : Yields rangeEndFollows c (fun b c' => c' = c.looked
      ∧ (b = true → RangeAhead c.items) ∧ (b = false → ¬ RangeWritten c.items)) fails := by
  refine look_bind hl ?_
  cases tail with
  | nil =>
    have hk : c.kindAt 1 = .eof := by
      rw [Cursor.kindAt_eq, hc]
      rfl
    rw [hk, hc]
    refine yields_pure ⟨rfl, by simp, fun _ => not_rangeWritten fun m x hm => ?_⟩
    cases m <;> simp [ClassAtom.items] at hm
  | cons i rest =>
    rw [Cursor.kindAt_one hc]
    cases i with
    | missing =>
      rw [hc]
      refine get_bind (yields_pure ⟨rfl, rangeAhead_of_decided (by simp) fun m x hm => ?_⟩)
      cases m <;> simp [ClassAtom.items] at hm
    | terminators run =>
      rw [hc]
      refine yields_pure ⟨rfl, by simp, fun _ => not_rangeWritten fun m x hm => ?_⟩
      cases m <;> simp [ClassAtom.items] at hm
    | node n =>
      rw [hc]
      exact get_bind (yields_pure ⟨rfl, rangeAhead_of_decided (by simp)
        fun m x hm => isSome_character?_of_node hc hm⟩)
    | char a =>
      by_cases hclose : a = ']'
      · subst hclose
        rw [hc]
        refine yields_pure ⟨rfl, by simp, fun _ => not_rangeWritten fun m x hm => ?_⟩
        exact absurd hm.symm m.items_ne_close
      have hi : Item.char a ≠ .char ']' := by simpa using hclose
      by_cases hslash : a = '\\'
      · subst hslash
        rw [hc]
        exact get_bind (yields_pure ⟨rfl, rangeAhead_of_decided hi
          fun m x hm => isSome_character?_of_slash hc hm⟩)
      rw [hc]
      split
      · rename_i hk
        exact absurd ((Kind.ofChar_eq_iff rfl).1 hk) hclose
      · rename_i hk
        exact absurd hk (Kind.ofChar_ne_eof a)
      · rename_i hk
        refine yields_pure ⟨rfl, by simp, fun _ => not_rangeWritten fun m x hm _ => ?_⟩
        rw [(isSome_character?_of_char hslash hm).1]
        exact ⟨.char a, List.mem_cons_self, hk⟩
      · rename_i hk
        exact absurd ((Kind.ofChar_eq_iff rfl).1 hk) hslash
      · rename_i hk
        exact absurd hk (Kind.ofChar_ne_interpolation a)
      · exact yields_pure ⟨rfl, rangeAhead_of_decided hi
          fun m x hm => (isSome_character?_of_char hslash hm).2⟩

theorem isAtRange_yields (hl : 2 ≤ c.looks) :
    Yields isAtRange c (fun b c' => c.Reaches [] c' ∧ c.looks ≤ c'.looks + 2
      ∧ (b = true → RangeAhead c.items) ∧ (b = false → ¬ RangeWritten c.items)) fails := by
  have hr : c.Reaches [] c.looked := Cursor.reaches_looked.2 (Cursor.Reaches.refl c)
  refine isAt_bind (by omega) ?_
  split
  · rename_i hk
    obtain ⟨tail, hc⟩ := Cursor.exists_char_of_kindAt (eq_of_beq hk) rfl
    refine (rangeEndFollows_yields (c := c.looked) hc ?_).mono ?_
    · rw [Cursor.looks_looked]
      omega
    intro b _ h
    obtain ⟨rfl, h⟩ := h
    refine ⟨Cursor.reaches_looked.2 hr, ?_, h⟩
    rw [Cursor.looks_looked, Cursor.looks_looked]
    omega
  · rename_i hk
    refine yields_pure ⟨hr, ?_, by simp, fun _ hw => ?_⟩
    · rw [Cursor.looks_looked]
      omega
    · obtain ⟨m, x, hm, -⟩ := hw
      exact hk (beq_iff_eq.2 (Cursor.kindAt_zero hm))

theorem classAtom_yields (hl : 3 ≤ c.looks) (hclose : c.kindAt 0 ≠ .bracketClose)
    (heof : c.kindAt 0 ≠ .eof)
    (hf : FailsUnless (∃ (a : ClassAtom) (rest : _), c.CanRead a.items rest) fails) :
    Yields classAtom c (fun e c' => ∃ a : ClassAtom, e = a.element ∧ c.Reaches a.items c'
      ∧ 12 ≤ c'.looks) fails := by
  have hl' : 2 ≤ c.looked.looks := by
    rw [Cursor.looks_looked]
    omega
  refine look_bind (by omega) ?_
  split
  · rename_i hk
    have hf' : FailsUnless (∃ code rest, c.looked.CanRead [.char '\\', .char code] rest) fails := by
      refine hf.mono fun h => ?_
      obtain ⟨a, rest, h⟩ := h
      cases a with
      | char d hd =>
        have hd' := (Cursor.kindAt_zero h.items).symm.trans hk
        exact absurd ((Kind.ofChar_eq_iff rfl).1 hd') hd.2
      | pair code => exact ⟨code, rest, Cursor.canRead_looked.2 h⟩
      | node n e _ => cases (Cursor.kindAt_zero h.items).symm.trans hk
    refine (classEscape_yields (c := c.looked) hk hl' hf').mono ?_
    intro e c' hpost
    obtain ⟨code, he, hr, hlooks⟩ := hpost
    exact ⟨.pair code, he, Cursor.looked_reaches.1 hr, hlooks⟩
  · rename_i hk
    have hf' : FailsUnless (∃ n rest, (Node.classElement? n).isSome
        ∧ c.looked.CanRead [.node n] rest) fails := by
      refine hf.mono fun h => ?_
      obtain ⟨a, rest, h⟩ := h
      cases a with
      | node n e he => exact ⟨n, rest, by rw [he]; rfl, Cursor.canRead_looked.2 h⟩
      | char d _ =>
        exact absurd ((Cursor.kindAt_zero h.items).symm.trans hk) (Kind.ofChar_ne_interpolation d)
      | pair code => cases (Cursor.kindAt_zero h.items).symm.trans hk
    refine (splice_yields (c := c.looked) hk hl' hf').mono ?_
    intro e c' hpost
    obtain ⟨n, he, hr, hlooks⟩ := hpost
    exact ⟨.node n e he, rfl, Cursor.looked_reaches.1 hr, hlooks⟩
  · rename_i hslash hcut
    obtain ⟨i, rest, hc⟩ := Cursor.exists_item heof
    have hk : c.kindAt 0 = i.kind := Cursor.kindAt_zero hc
    have hm : c.MayFail fails := by
      refine hf.mayFail fun h => ?_
      obtain ⟨a, rest', h⟩ := h
      cases a <;> exact ⟨_, _, _, h⟩
    refine Yields.map ((literal_yields (c := c.looked) hc (fun h => hcut (hk.trans h))
      (by omega) (Cursor.mayFail_looked.2 hm)).mono ?_)
    intro r c' hpost
    obtain ⟨⟨a, rfl, rfl⟩, hr, hlooks⟩ := hpost
    have hbare : a ≠ ']' ∧ a ≠ '\\' := by
      constructor
      · rintro rfl
        exact hclose hk
      · rintro rfl
        exact hslash hk
    exact ⟨.char a hbare, rfl, Cursor.looked_reaches.1 hr, hlooks⟩

/-- Behind a minus that makes a range, the end of the range is never of the wrong type. -/
theorem rangeEnd_yields {i : Item} {rest : List Item} (hc : c.items = i :: rest)
    (hi : i ≠ .char ']') (ha : ∀ (m : ClassAtom) (x : _), i :: rest = m.items ++ x →
      m.character?.isSome) (hl : 3 ≤ c.looks)
    (hf : FailsUnless (∃ (a : ClassAtom) (rest : _), c.CanRead a.items rest) fails) :
    Yields rangeEnd c (fun r c' => ∃ a : ClassAtom, a.character? = some r ∧ c.Reaches a.items c'
      ∧ 12 ≤ c'.looks) fails := by
  have hk : c.kindAt 0 = i.kind := Cursor.kindAt_zero hc
  have hclose : c.kindAt 0 ≠ .bracketClose := fun h =>
    hi (Item.eq_char_of_kind (hk.symm.trans h) rfl)
  have heof : c.kindAt 0 ≠ .eof := fun h => i.kind_ne_eof (hk.symm.trans h)
  refine get_bind ((classAtom_yields hl hclose heof hf).bind ?_)
  intro _ c' hpost
  obtain ⟨a, rfl, hr, hlooks⟩ := hpost
  have hsome := ha a c'.items (hc.symm.trans hr.items)
  unfold ClassAtom.character? at hsome
  split
  · rename_i r hr'
    exact yields_pure ⟨a, by rw [ClassAtom.character?, hr'], hr, hlooks⟩
  · rename_i hne
    split at hsome
    · rename_i r hr'
      exact absurd hr' (hne r)
    · cases hsome

/-! ## Elements -/

theorem rangeWritten_of_rangeStart {t : List ClassAtom} {x : List Item}
    (h : ClassAtom.RangeStart t) (hclean : ∀ i ∈ t.flatMap ClassAtom.items, i.kind ≠ .garbage) :
    RangeWritten (t.flatMap ClassAtom.items ++ x) := by
  obtain ⟨b, m, t, rfl, hminus, hsome⟩ := h
  refine ⟨m, t.flatMap ClassAtom.items ++ x, ?_, hsome, fun i hi => hclean i ?_⟩
  · simp [ClassAtom.isMinus_iff.1 hminus]
  · simp [hi]

/-- What has to stand at the cursor for a class to be read to its end. -/
def ClassBody (c : Cursor) : Prop :=
  ∃ (body : List ClassAtom) (rest : List Item),
    c.CanRead (body.flatMap ClassAtom.items ++ [.char ']']) rest

theorem ClassBody.looked (h : ClassBody c) : ClassBody c.looked := by
  obtain ⟨body, rest, h⟩ := h
  exact ⟨body, rest, Cursor.canRead_looked.2 h⟩

theorem ClassBody.atom (h : ClassBody c) (hne : c.kindAt 0 ≠ .bracketClose) :
    ∃ (a : ClassAtom) (rest : List Item), c.CanRead a.items rest := by
  obtain ⟨body, rest, h⟩ := h
  cases body with
  | nil => exact absurd (Cursor.kindAt_zero h.items) hne
  | cons a body =>
    rw [List.flatMap_cons, List.append_assoc] at h
    exact ⟨a, _, h.left⟩

theorem ClassBody.step {a : ClassAtom} (h : ClassBody c) (hr : c.Reaches a.items c') :
    ClassBody c' := by
  obtain ⟨body, rest, h⟩ := h
  have hi := hr.items.symm.trans h.items
  cases body with
  | nil => exact absurd hi a.items_ne_close
  | cons b body =>
    rw [List.flatMap_cons, List.append_assoc, List.append_assoc] at hi
    obtain ⟨rfl, -⟩ := ClassAtom.items_append_inj hi
    rw [List.flatMap_cons, List.append_assoc] at h
    exact ⟨body, rest, h.step hr⟩

theorem ClassBody.mayFail (hf : FailsUnless (ClassBody c) fails) : c.MayFail fails := by
  refine hf.mayFail fun h => ?_
  obtain ⟨body, rest, h⟩ := h
  rcases body with _ | ⟨_ | _ | _, body⟩ <;> exact ⟨_, _, rest, h⟩

theorem rangeFrom_yields {a : ClassAtom} {min : Character} (ha : a.character? = some min)
    (hl : 6 ≤ c.looks) (hf : FailsUnless (ClassBody c) fails) :
    Yields (rangeFrom min) c (fun e c' => ∃ as : List ClassAtom,
      c.Reaches (as.flatMap ClassAtom.items) c' ∧ 4 ≤ c'.looks ∧ FailsUnless (ClassBody c') fails
      ∧ ∀ tail x, c'.items = tail.flatMap ClassAtom.items ++ x →
        (∀ i ∈ tail.flatMap ClassAtom.items, i.kind ≠ .garbage) →
        ClassAtom.elements (a :: as ++ tail) = e :: ClassAtom.elements tail) fails := by
  refine (isAtRange_yields (by omega)).bind ?_
  intro b c₁ hpost
  obtain ⟨hr₁, hl₁, htrue, hfalse⟩ := hpost
  have hf₁ : FailsUnless (ClassBody c₁) fails := by
    refine hf.mono fun h => ?_
    obtain ⟨body, rest, h⟩ := h
    exact ⟨body, rest, h.step (u := []) hr₁⟩
  have hitems : c.items = c₁.items := hr₁.items
  split
  · rename_i hb
    obtain ⟨i, rest, hc, hi, hend⟩ := htrue hb
    let minus : ClassAtom := .char '-' (by decide)
    refine (token_char_yields .punctuator (hitems ▸ hc) (by omega) (ClassBody.mayFail hf₁)).bind ?_
    intro _ c₂ hpost
    obtain ⟨rfl, hr₂, hl₂⟩ := hpost
    have hc₂ : c₂.items = i :: rest := hr₂.items_eq (hitems ▸ hc)
    have hf₂ : FailsUnless (ClassBody c₂) fails := hf₁.mono fun h => h.step (a := minus) hr₂
    have hf₂' := hf₂.mono fun h => h.atom fun hk =>
      hi (Item.eq_char_of_kind ((Cursor.kindAt_zero hc₂).symm.trans hk) rfl)
    refine (rangeEnd_yields hc₂ hi hend (by omega) hf₂').bind ?_
    intro max c₃ hpost
    obtain ⟨m, hm, hr₃, hl₃⟩ := hpost
    rw [sound_eq (show CharacterClassRange.ofParts min (.ofChar .punctuator '-') max = .ok _
      from rfl)]
    refine yields_pure ⟨[minus, m], ?_, by omega, hf₂.mono fun h => h.step hr₃, ?_⟩
    · have := (hr₁.trans hr₂).trans hr₃
      simpa [ClassAtom.items, minus] using this
    · intro tail x _ _
      simp [ClassAtom.elements, ha, hm, ClassAtom.isMinus, minus]
  · rename_i hb
    refine yields_pure ⟨[], hr₁, by omega, hf₁, fun tail x hx hclean => ?_⟩
    rw [← ClassAtom.element_eq ha]
    have hno : ¬ ClassAtom.RangeStart tail := fun hstart => by
      have hwritten : RangeWritten (tail.flatMap ClassAtom.items ++ x) :=
        rangeWritten_of_rangeStart hstart hclean
      rw [← hx, ← hitems] at hwritten
      exact hfalse (by simpa using hb) hwritten
    exact ClassAtom.elements_cons_of_not_range (.inr hno)

theorem classElement_yields (hl : 3 ≤ c.looks) (hclose : c.kindAt 0 ≠ .bracketClose)
    (heof : c.kindAt 0 ≠ .eof) (hf : FailsUnless (ClassBody c) fails) :
    Yields classElement c (fun e c' => ∃ as : List ClassAtom, as ≠ []
      ∧ c.Reaches (as.flatMap ClassAtom.items) c' ∧ 4 ≤ c'.looks ∧ FailsUnless (ClassBody c') fails
      ∧ ∀ tail x, c'.items = tail.flatMap ClassAtom.items ++ x →
        (∀ i ∈ tail.flatMap ClassAtom.items, i.kind ≠ .garbage) →
        ClassAtom.elements (as ++ tail) = e :: ClassAtom.elements tail) fails := by
  refine (classAtom_yields hl hclose heof (hf.mono fun h => h.atom hclose)).bind ?_
  intro _ c₁ hpost
  obtain ⟨a, rfl, hr₁, hl₁⟩ := hpost
  have hf₁ : FailsUnless (ClassBody c₁) fails := hf.mono fun h => h.step hr₁
  split
  · rename_i min hmin
    have ha : a.character? = some min := by rw [ClassAtom.character?, hmin]
    refine (rangeFrom_yields ha (by omega) hf₁).mono ?_
    intro e c₂ hpost
    obtain ⟨as, hr₂, hl₂, hf₂, hels⟩ := hpost
    exact ⟨a :: as, by simp, hr₁.trans hr₂, hl₂, hf₂, hels⟩
  · rename_i hne
    have ha : a.character? = none := by
      unfold ClassAtom.character?
      split
      · rename_i r hr
        exact absurd hr (hne r)
      · rfl
    refine yields_pure ⟨[a], by simp, ?_, by omega, hf₁, fun tail x _ _ => ?_⟩
    · simpa using hr₁
    · exact ClassAtom.elements_cons_of_not_range (.inl ha)

theorem failUnclosed_yields {α : Type} {cause : Cause} {remark : Remark}
    {post : α → Cursor → Prop} (hc : c.Regular)
    (hf : ∀ related, fails (.error ⟨cause, c.span, related⟩)) :
    Yields (failUnclosed cause remark) c post fails := by
  refine get_bind ?_
  split
  · exact yields_failBecause (hf _)
  · rename_i d ds hd
    split
    · exact yields_failBecause (hf _)
    · rename_i hk
      have := hc.delimited d (by rw [hd]; exact List.mem_cons_self)
      simp [this] at hk

/-- The elements of a class are those that the derivation groups. -/
theorem classElements_yields (hc : c.Regular) (hl : 4 ≤ c.looks)
    (hf : FailsUnless (ClassBody c) fails) :
    Yields classElements c (fun es c' => ∃ body : List ClassAtom, es = ClassAtom.elements body
      ∧ c.Reaches (body.flatMap ClassAtom.items) c' ∧ 3 ≤ c'.looks ∧ c'.kindAt 0 = .bracketClose
      ∧ FailsUnless (ClassBody c') fails) fails := by
  refine collect_yields (I := fun _ c => c.Regular ∧ 4 ≤ c.looks ∧ FailsUnless (ClassBody c) fails)
    (P := fun _ c es c' => ∃ body : List ClassAtom, es = ClassAtom.elements body
      ∧ c.Reaches (body.flatMap ClassAtom.items) c' ∧ 3 ≤ c'.looks ∧ c'.kindAt 0 = .bracketClose
      ∧ FailsUnless (ClassBody c') fails)
    ?_ (x := ()) ⟨hc, hl, hf⟩
  intro _ c hpost
  obtain ⟨hc, hl, hf⟩ := hpost
  have hl' : 3 ≤ c.looked.looks := by
    rw [Cursor.looks_looked]
    omega
  have hf' : FailsUnless (ClassBody c.looked) fails := hf.mono ClassBody.looked
  refine look_bind (by omega) ?_
  split
  · rename_i hk
    exact yields_pure ⟨[], rfl, Cursor.reaches_looked.2 (Cursor.Reaches.refl c), hl', hk, hf'⟩
  · rename_i hk
    refine failUnclosed_yields (c := c.looked) ⟨hc.placed, hc.delimited⟩ fun _ => hf _ trivial ?_
    intro h
    obtain ⟨body, rest, h⟩ := h
    have hnil := Cursor.kindAt_eq_eof hk
    rw [h.items] at hnil
    simp at hnil
  · rename_i hclose heof
    refine Yields.map ((classElement_yields (c := c.looked) hl' hclose heof hf').mono ?_)
    intro e c' hpost
    obtain ⟨as, hne, hr, hlooks, hf'', hels⟩ := hpost
    rw [Cursor.looked_reaches] at hr
    refine ⟨?_, (), ⟨hc.reaches hr, hlooks, hf''⟩, ?_⟩
    · refine hr.length_lt fun hnil => ?_
      obtain ⟨a, as, rfl⟩ := List.exists_cons_of_ne_nil hne
      cases a <;> simp [ClassAtom.items] at hnil
    · intro es c'' hpost
      obtain ⟨body, rfl, hr', hlooks', hk⟩ := hpost
      refine ⟨as ++ body, ?_, ?_, hlooks', hk⟩
      · exact (hels body c''.items hr'.items hr'.clean).symm
      · rw [List.flatMap_append]
        exact hr.trans hr'

/-! ## The whole class -/

theorem negation_yields (hl : 2 ≤ c.looks) (hm : c.MayFail fails) :
    Yields negation c (fun t c' =>
      (t = some (.ofChar .punctuator '^') ∧ c.Reaches [.char '^'] c' ∧ 12 ≤ c'.looks)
        ∨ (t = none ∧ c.kindAt 0 ≠ .caret ∧ c' = c.looked)) fails := by
  refine isAt_bind (by omega) ?_
  split
  · rename_i hk
    obtain ⟨rest, hc⟩ := Cursor.exists_char_of_kindAt (eq_of_beq hk) rfl
    refine Yields.map ((token_char_yields (c := c.looked) .punctuator hc ?_ ?_).mono ?_)
    · rw [Cursor.looks_looked]
      omega
    · exact Cursor.mayFail_looked.2 hm
    intro _ c' hpost
    obtain ⟨rfl, hr, hl'⟩ := hpost
    exact .inl ⟨rfl, Cursor.looked_reaches.1 hr, hl'⟩
  · rename_i hk
    exact yields_pure (.inr ⟨rfl, by simpa using hk, rfl⟩)

theorem negation_eq_none {body : List ClassAtom} {x : List Item} (hc : c.kindAt 0 ≠ .caret)
    (hb : c.items = body.flatMap ClassAtom.items ++ x) :
    ClassAtom.negation body = (none, body) := by
  rcases ClassAtom.negation_cases body with ⟨_, rest, rfl⟩ | hnone
  · exact absurd (Cursor.kindAt_zero hb) hc
  · exact hnone

theorem classBody_yields (hreg : c.Regular) (hl : 5 ≤ c.looks)
    (hf : FailsUnless (ClassBody c) fails) :
    Yields classBody c (fun r c' => ∃ body, r = ((ClassAtom.negation body).1,
        ClassAtom.elements (ClassAtom.negation body).2)
      ∧ c.Reaches (body.flatMap ClassAtom.items) c' ∧ 3 ≤ c'.looks ∧ c'.kindAt 0 = .bracketClose
      ∧ FailsUnless (ClassBody c') fails) fails := by
  refine (negation_yields (by omega) (ClassBody.mayFail hf)).bind ?_
  rintro _ c₁ (⟨rfl, hr₁, hl₁⟩ | ⟨rfl, hk, rfl⟩)
  · let caret : ClassAtom := .char '^' (by decide)
    have hf₁ : FailsUnless (ClassBody c₁) fails := hf.mono fun h => h.step (a := caret) hr₁
    refine (classElements_yields (hreg.reaches hr₁) (by omega) hf₁).bind ?_
    intro _ c₂ h
    obtain ⟨body, rfl, hr₂, h⟩ := h
    exact yields_pure ⟨caret :: body, rfl, hr₁.trans hr₂, h⟩
  · have hl₁ : 4 ≤ c.looked.looks := by
      rw [Cursor.looks_looked]
      omega
    refine (classElements_yields (c := c.looked) ⟨hreg.placed, hreg.delimited⟩ hl₁
      (hf.mono ClassBody.looked)).bind ?_
    intro _ c₂ h
    obtain ⟨body, rfl, hr₂, h⟩ := h
    rw [Cursor.looked_reaches] at hr₂
    exact yields_pure ⟨body, by rw [negation_eq_none hk hr₂.items], hr₂, h⟩

theorem charClass_eq (body : List ClassAtom) :
    CharacterClass.ofParts ((Token.ofChar .punctuator '[').opening ']' .characterClass)
      (ClassAtom.negation body).1 (ClassAtom.elements (ClassAtom.negation body).2)
      (Token.ofChar .punctuator ']').balancing = .ok (ClassAtom.charClass body) := by
  unfold ClassAtom.charClass ClassAtom.negation
  split
  · split <;> rfl
  · rfl

theorem characterClass_yields (hc : c.kindAt 0 = .bracketOpen) (hreg : c.Regular)
    (hl : 2 ≤ c.looks)
    (hf : FailsUnless (∃ body rest, c.CanRead (Atom.charClass body).items rest) fails) :
    Yields characterClass c (fun r c' => ∃ body, r = ClassAtom.charClass body
      ∧ c.Reaches (Atom.charClass body).items c' ∧ 12 ≤ c'.looks) fails := by
  refine expect_bind (by omega) hc (modify_bind ?_)
  let c₁ : Cursor :=
    { c.looked with delimiters := ⟨.bracketOpen, c.looked.span⟩ :: c.looked.delimiters }
  obtain ⟨rest, hrest⟩ := Cursor.exists_char_of_kindAt hc rfl
  have hreg₁ : c₁.Regular := ⟨hreg.placed, fun d hd => by
    rcases List.mem_cons.1 hd with rfl | hd
    · exact .inr rfl
    · exact hreg.delimited d hd⟩
  have hf₁ : FailsUnless (∃ body rest, c₁.CanRead (Atom.charClass body).items rest) fails := by
    refine hf.mono fun h => ?_
    obtain ⟨body, rest, h⟩ := h
    exact ⟨body, rest, h.items, h.clean, h.fuel⟩
  have hm₁ : c₁.MayFail fails := by
    refine hf₁.mayFail fun h => ?_
    obtain ⟨_, rest, h⟩ := h
    exact ⟨_, _, rest, h⟩
  have hl₁ : 0 < c₁.looks := by
    rw [show c₁.looks = c.looks - 1 from rfl]
    omega
  refine (token_char_yields (c := c₁) .punctuator hrest hl₁ hm₁).bind ?_
  intro _ c₂ hpost
  obtain ⟨rfl, hr₂, hl₂⟩ := hpost
  have hf₂ : FailsUnless (ClassBody c₂) fails := by
    refine hf₁.mono fun h => ?_
    obtain ⟨body, rest, h⟩ := h
    exact ⟨body, rest, h.step (u := [_]) hr₂⟩
  refine (classBody_yields (hreg₁.reaches hr₂) (by omega) hf₂).bind ?_
  intro _ c₃ hpost
  obtain ⟨body, rfl, hr₃, hl₃, hk₃, hf₃⟩ := hpost
  obtain ⟨rest₃, hrest₃⟩ := Cursor.exists_char_of_kindAt hk₃ rfl
  refine (token_char_yields .punctuator hrest₃ (by omega) (ClassBody.mayFail hf₃)).bind ?_
  intro _ c₄ hpost
  obtain ⟨rfl, hr₄, hl₄⟩ := hpost
  refine modify_bind ?_
  have hr : c₁.Reaches (Atom.charClass body).items c₄ := (hr₂.trans hr₃).trans hr₄
  rw [sound_eq (charClass_eq body)]
  exact yields_pure ⟨body, rfl, Cursor.looked_reaches.1 hr.between, hl₄⟩

end Parser

end RegexLiteral
