import RegexLiteral.Proofs.Dump.Shape

/-!
# A dump tells its tree

The lines of a dump are read from the top. What a line says, and the labels of the lines below it,
tell which parts follow and where each of them ends: a list ends at the first line whose label is
not one of the list's own. So no two nodes have the same lines (`Node.dumpLines_inj`), and no two
have the same dump (`Node.dump_eq_iff`).
-/

namespace RegexLiteral

/-! ## Tokens -/

theorem Token.dump_inj {t u : Token} {depth : Nat} {label : Option String}
    (h : t.dump depth label = u.dump depth label) : t = u :=
  dumpText_inj (congrArg DumpLine.content h)

/-- A token is written between angle brackets. -/
theorem Token.dumpText_ne {s : String} (hs : s.toList.head? ≠ some '<') (t : Token) :
    t.dumpText ≠ s := by
  rintro rfl
  simp [toList_dumpText] at hs

theorem dumpOptional_inj {t u : Option Token} {depth : Nat} {s : String}
    (h : dumpOptional depth s t = dumpOptional depth s u) : t = u := by
  rcases t with _ | t <;> rcases u with _ | u
  · rfl
  · exact absurd (congrArg DumpLine.content h).symm (u.dumpText_ne (by simp [dumpOptional]))
  · exact absurd (congrArg DumpLine.content h) (t.dumpText_ne (by simp [dumpOptional]))
  · rw [Token.dump_inj h]

/-! ## Values -/

theorem Text.dumpQuotedChar_inj {c d : Char} (h : dumpQuotedChar c = dumpQuotedChar d) : c = d := by
  simpa using prefixCode_dumpQuoted.inj (congrArg String.toList h)

theorem toDigits_inj {m n : Nat} (h : Nat.toDigits 10 m = Nat.toDigits 10 n) : m = n := by
  simpa using congrArg (Nat.ofDigitChars 10 · 0) h

theorem Bound.text_inj {b c : Bound} (h : b.text.toList = c.text.toList) : b = c := by
  have hne (n : Nat) : Nat.toDigits 10 n ≠ "+Infinity".toList := by
    intro hn
    have hplus : '+' ∉ Nat.toDigits 10 n := not_mem_toDigits (by simp) n
    simp [hn] at hplus
  rcases b with n | _ <;> rcases c with m | _
  · obtain rfl : n = m := toDigits_inj (by simpa [text] using h)
    rfl
  · exact absurd (by simpa [text] using h) (hne n)
  · exact absurd (by simpa [text] using h.symm) (hne m)
  · rfl

/-- The blank behind the lower bound ends it. -/
theorem bounds_inj {m n : Nat} {b c : Bound}
    (h : "Quantifier min=" ++ toString m ++ " max=" ++ b.text
      = "Quantifier min=" ++ toString n ++ " max=" ++ c.text) : m = n ∧ b = c := by
  have hblank (k : Nat) : ' ' ∉ Nat.toDigits 10 k := not_mem_toDigits (by simp) k
  obtain ⟨hmin, hmax⟩ := append_cons_inj (hblank m) (hblank n)
    (by simpa using congrArg String.toList h)
  exact ⟨toDigits_inj hmin, Bound.text_inj (by simpa using hmax)⟩

theorem Flag.prefixCode_switch (f : Flag) : PrefixCode fun on => (switch f.name on).toList := by
  rintro (_ | _) (_ | _) x y h <;> cases f <;> simp_all [switch, name]

/-- What a dump says of each of the flags tells which of them are on. -/
theorem FlagSet.switches_inj {s t : FlagSet} {fs : List Flag}
    (h : String.join (fs.map fun f => " " ++ switch f.name (s.has f))
      = String.join (fs.map fun f => " " ++ switch f.name (t.has f))) :
    ∀ f ∈ fs, s.has f = t.has f := by
  induction fs with
  | nil => simp
  | cons f fs ih =>
    have hlist := congrArg String.toList h
    simp only [List.map_cons, String.join_cons, String.toList_append, List.append_assoc] at hlist
    obtain ⟨hon, hrest⟩ := f.prefixCode_switch (List.append_cancel_left hlist)
    rw [List.forall_mem_cons]
    exact ⟨hon, ih (String.toList_injective hrest)⟩

/-! ## Lists -/

/-- The lines do not begin with a member of the list that is labelled `s`. -/
def EndsList (s : String) (ls : List DumpLine) : Prop :=
  ∀ l ∈ ls.head?, ∀ i, l.label ≠ some (indexed s i)

theorem endsList_of_label {s t : String} (ht : '[' ∉ t.toList) {l : DumpLine} {ls : List DumpLine}
    (hl : l.label = some t) : EndsList s (l :: ls) := by
  intro m hm' i hm
  obtain rfl : l = m := by simpa using hm'
  exact indexed_ne ht s i (Option.some.inj (hl.symm.trans hm))

section List

variable {α : Type} {depth : Nat} {dump : String → α → List DumpLine} {s : String}
  {x y : List DumpLine}

theorem dumpListFrom_append_inj (hdump : ∀ s, PrefixCode (dump s))
    (hhead : ∀ s a, ∃ l below, dump s a = l :: below ∧ l.label = some s) {as bs : List α}
    (hx : EndsList s x) (hy : EndsList s y) {i : Nat}
    (h : dumpListFrom dump s i as ++ x = dumpListFrom dump s i bs ++ y) : as = bs ∧ x = y := by
  induction as generalizing bs i with
  | nil =>
    rcases bs with _ | ⟨b, bs⟩
    · exact ⟨rfl, h⟩
    -- what stands behind the shorter list would begin with a member of it
    · obtain ⟨l, below, hb, hl⟩ := hhead (indexed s i) b
      obtain rfl : x = (dump (indexed s i) b ++ dumpListFrom dump s (i + 1) bs) ++ y := h
      exact absurd hl (hx l (by simp [hb]) i)
  | cons a as ih =>
    rcases bs with _ | ⟨b, bs⟩
    · obtain ⟨l, below, ha, hl⟩ := hhead (indexed s i) a
      obtain rfl : (dump (indexed s i) a ++ dumpListFrom dump s (i + 1) as) ++ x = y := h
      exact absurd hl (hy l (by simp [ha]) i)
    · simp only [dumpListFrom, List.append_assoc] at h
      obtain ⟨rfl, hrest⟩ := hdump _ h
      obtain ⟨rfl, hxy⟩ := ih hrest
      exact ⟨rfl, hxy⟩

theorem dumpList_append_inj (hdump : ∀ s, PrefixCode (dump s))
    (hhead : ∀ s a, ∃ l below, dump s a = l :: below ∧ l.label = some s) {as bs : List α}
    (hs : '[' ∉ s.toList) (hx : EndsList s x) (hy : EndsList s y)
    (h : dumpList depth dump s as ++ x = dumpList depth dump s bs ++ y) : as = bs ∧ x = y := by
  have hempty (a : α) (as : List α) (x y : List DumpLine) :
      ⟨depth, some s, "[]"⟩ :: x ≠ dumpListFrom dump s 0 (a :: as) ++ y := by
    intro heq
    obtain ⟨l, below, ha, hl⟩ := hhead (indexed s 0) a
    rw [dumpListFrom, ha] at heq
    obtain rfl := (List.cons.inj heq).1
    exact indexed_ne hs s 0 (Option.some.inj hl)
  rcases as with _ | ⟨a, as⟩ <;> rcases bs with _ | ⟨b, bs⟩
  · exact ⟨rfl, (List.cons.inj h).2⟩
  · exact absurd h (hempty b bs x y)
  · exact absurd h.symm (hempty a as y x)
  · exact dumpListFrom_append_inj hdump hhead hx hy h

end List

/-! ## Nodes -/

section Nodes

variable (depth : Nat) (label : Option String)

theorem EscapeSequence.prefixCode_dump : PrefixCode (EscapeSequence.dump depth label) := by
  rintro ⟨cooked, escape, code⟩ ⟨cooked', escape', code'⟩ x y h
  simp only [dump, List.cons_append, List.nil_append, List.cons.injEq, DumpLine.mk.injEq,
    true_and, String.append_right_inj] at h
  obtain ⟨hcooked, hescape, hcode, hxy⟩ := h
  rw [Text.dumpQuotedChar_inj hcooked, Token.dump_inj hescape, Token.dump_inj hcode]
  exact ⟨rfl, hxy⟩

theorem Character.prefixCode_dump : PrefixCode (Character.dump depth label) := by
  have hne (t : Token) : t.dumpText ≠ "Character" := t.dumpText_ne (by simp)
  rintro (t | e) (u | f) x y h
  · obtain ⟨ht, hxy⟩ := List.cons.inj h
    rw [Token.dump_inj ht]
    exact ⟨rfl, hxy⟩
  · exact absurd (congrArg DumpLine.content (List.cons.inj h).1) (hne t)
  · exact absurd (congrArg DumpLine.content (List.cons.inj h).1).symm (hne u)
  · obtain ⟨rfl, hxy⟩ := EscapeSequence.prefixCode_dump _ _ (List.cons.inj h).2
    exact ⟨rfl, hxy⟩

theorem WordCharacterSet.prefixCode_dump : PrefixCode (WordCharacterSet.dump depth label) := by
  rintro ⟨escape, value⟩ ⟨escape', value'⟩ x y h
  simp only [dump, List.cons_append, List.nil_append, List.cons.injEq] at h
  obtain ⟨-, hescape, hvalue, hxy⟩ := h
  rw [Token.dump_inj hescape, Token.dump_inj hvalue]
  exact ⟨rfl, hxy⟩

theorem Gap.prefixCode_dump : PrefixCode (Gap.dump depth label) := by
  rintro ⟨escape, value⟩ ⟨escape', value'⟩ x y h
  simp only [dump, List.cons_append, List.nil_append, List.cons.injEq] at h
  obtain ⟨-, hescape, hvalue, hxy⟩ := h
  rw [Token.dump_inj hescape, Token.dump_inj hvalue]
  exact ⟨rfl, hxy⟩

theorem CharacterClassRange.prefixCode_dump :
    PrefixCode (CharacterClassRange.dump depth label) := by
  rintro ⟨min, sigil, max⟩ ⟨min', sigil', max'⟩ x y h
  simp only [dump, List.cons_append, List.append_assoc] at h
  obtain ⟨rfl, hrest⟩ := Character.prefixCode_dump _ _ (List.cons.inj h).2
  obtain ⟨hsigil, hmax⟩ := List.cons.inj hrest
  obtain ⟨rfl, hxy⟩ := Character.prefixCode_dump _ _ hmax
  rw [Token.dump_inj hsigil]
  exact ⟨rfl, hxy⟩

theorem ClassElement.prefixCode_dump : PrefixCode (ClassElement.dump depth label) := by
  intro a b x y h
  -- the first lines are the same, so they name the same type
  have htype : a.type = b.type := (a.headed depth label).type_eq (b.headed depth label) h
  cases a <;> cases b <;> cases htype
  · obtain ⟨rfl, hxy⟩ := Character.prefixCode_dump _ _ h
    exact ⟨rfl, hxy⟩
  · obtain ⟨rfl, hxy⟩ := CharacterClassRange.prefixCode_dump _ _ h
    exact ⟨rfl, hxy⟩
  · obtain ⟨rfl, hxy⟩ := WordCharacterSet.prefixCode_dump _ _ h
    exact ⟨rfl, hxy⟩

theorem CharacterClass.prefixCode_dump : PrefixCode (CharacterClass.dump depth label) := by
  rintro ⟨openToken, negate, elements, close⟩ ⟨openToken', negate', elements', close'⟩ x y h
  simp only [dump, List.cons_append, List.append_assoc, List.cons.injEq, List.nil_append] at h
  obtain ⟨-, hopen, hnegate, hrest⟩ := h
  obtain ⟨rfl, hend⟩ := dumpList_append_inj (fun s => ClassElement.prefixCode_dump _ _)
    (fun s e => (e.headed _ _).exists_head) (by simp)
    (endsList_of_label (by simp) rfl) (endsList_of_label (by simp) rfl) hrest
  obtain ⟨hclose, hxy⟩ := List.cons.inj hend
  rw [Token.dump_inj hopen, dumpOptional_inj hnegate, Token.dump_inj hclose]
  exact ⟨rfl, hxy⟩

theorem Braces.prefixCode_dump : PrefixCode (Braces.dump depth label) := by
  rintro ⟨openToken, min, separator, max, close⟩ ⟨openToken', min', separator', max', close'⟩ x y h
  simp only [dump, List.cons_append, List.nil_append, List.cons.injEq] at h
  obtain ⟨-, hopen, hmin, hseparator, hmax, hclose, hxy⟩ := h
  rw [Token.dump_inj hopen, Token.dump_inj hmin, dumpOptional_inj hseparator,
    dumpOptional_inj hmax, Token.dump_inj hclose]
  exact ⟨rfl, hxy⟩

/-- A sigil is told by its label. -/
theorem Sigil.prefixCode_dump : PrefixCode (Sigil.dump depth) := by
  rintro (t | b) (u | c) x y h
  · obtain ⟨ht, hxy⟩ := List.cons.inj h
    rw [Token.dump_inj ht]
    exact ⟨rfl, hxy⟩
  · simpa [Token.dump] using congrArg DumpLine.label (List.cons.inj h).1
  · simpa [Token.dump] using congrArg DumpLine.label (List.cons.inj h).1
  · obtain ⟨rfl, hxy⟩ := Braces.prefixCode_dump _ _ h
    exact ⟨rfl, hxy⟩

theorem Atom.prefixCode_dump : PrefixCode (Atom.dump depth label) := by
  intro a b x y h
  have htype : a.type = b.type := (a.headed depth label).type_eq (b.headed depth label) h
  cases a <;> cases b <;> cases htype
  · obtain ⟨rfl, hxy⟩ := Character.prefixCode_dump _ _ h
    exact ⟨rfl, hxy⟩
  · obtain ⟨rfl, hxy⟩ := CharacterClass.prefixCode_dump _ _ h
    exact ⟨rfl, hxy⟩
  · obtain ⟨rfl, hxy⟩ := WordCharacterSet.prefixCode_dump _ _ h
    exact ⟨rfl, hxy⟩
  · obtain ⟨rfl, hxy⟩ := Gap.prefixCode_dump _ _ h
    exact ⟨rfl, hxy⟩

theorem Quantifier.prefixCode_dump : PrefixCode (Quantifier.dump depth label) := by
  rintro ⟨atom, sigil, min, max⟩ ⟨atom', sigil', min', max'⟩ x y h
  simp only [dump, List.cons_append, List.append_assoc] at h
  obtain ⟨hhead, hparts⟩ := List.cons.inj h
  obtain ⟨rfl, hsigil⟩ := Atom.prefixCode_dump _ _ hparts
  obtain ⟨rfl, hxy⟩ := Sigil.prefixCode_dump _ hsigil
  obtain ⟨rfl, rfl⟩ := bounds_inj (congrArg DumpLine.content hhead)
  exact ⟨rfl, hxy⟩

theorem Element.prefixCode_dump : PrefixCode (Element.dump depth label) := by
  have hne (a : Atom) : a.type ≠ .quantifier := by cases a <;> simp [Atom.type]
  intro a b x y h
  have htype : a.type = b.type := (a.headed depth label).type_eq (b.headed depth label) h
  rcases a with a | q <;> rcases b with b | r
  · obtain ⟨rfl, hxy⟩ := Atom.prefixCode_dump _ _ h
    exact ⟨rfl, hxy⟩
  · exact absurd htype (hne a)
  · exact absurd htype.symm (hne b)
  · obtain ⟨rfl, hxy⟩ := Quantifier.prefixCode_dump _ _ h
    exact ⟨rfl, hxy⟩

/-- Nothing but its last element ends an alternative. -/
theorem Alternative.dump_append_inj {a b : Alternative} {x y : List DumpLine}
    (hx : EndsList "elements" x) (hy : EndsList "elements" y)
    (h : a.dump depth label ++ x = b.dump depth label ++ y) : a = b ∧ x = y := by
  obtain ⟨as⟩ := a
  obtain ⟨bs⟩ := b
  obtain ⟨rfl, hxy⟩ := dumpList_append_inj (fun s => Element.prefixCode_dump _ _)
    (fun s e => (e.headed _ _).exists_head) (by simp) hx hy (List.cons.inj h).2
  exact ⟨rfl, hxy⟩

theorem Flags.dump_inj {f g : Flags} (h : f.dump depth label = g.dump depth label) : f = g := by
  obtain ⟨set, tokens⟩ := f
  obtain ⟨set', tokens'⟩ := g
  obtain ⟨hhead, hrest⟩ := List.cons.inj h
  have hswitches := FlagSet.switches_inj
    ((String.append_right_inj _).1 (congrArg DumpLine.content hhead))
  obtain rfl : set = set' :=
    FlagSet.eq_of_has fun flag => hswitches flag (by cases flag <;> simp [Flag.all])
  have htoken (s : String) : PrefixCode fun t : Token => [t.dump (depth + 1) (some s)] := by
    intro t u x y h
    obtain ⟨ht, hxy⟩ := List.cons.inj h
    exact ⟨Token.dump_inj ht, hxy⟩
  have hend : EndsList "tokens" [] := by simp [EndsList]
  obtain ⟨rfl, -⟩ := dumpList_append_inj htoken (fun s t => ⟨_, [], rfl, rfl⟩) (by simp) hend hend
    (congrArg (· ++ []) hrest)
  rfl

namespace Pattern

/-- What may stand behind the alternatives. -/
def EndsAlternatives (ls : List DumpLine) : Prop :=
  EndsList "separatorTokens" ls ∧ EndsList "elements" ls

theorem endsList_elements_dumpRest (i : Nat) (rest : List (Token × Alternative))
    {x : List DumpLine} (hx : EndsAlternatives x) :
    EndsList "elements" (dumpRest depth i rest ++ x) := by
  rcases rest with _ | ⟨⟨separator, a⟩, more⟩
  · exact hx.2
  · intro l hl j hj
    obtain rfl : separator.dump depth (some (indexed "separatorTokens" i)) = l := by
      simpa [dumpRest] using hl
    exact indexed_ne_indexed (by simp) (by simp) (by simp) i j (Option.some.inj hj)

theorem dumpRest_append_inj {rest rest' : List (Token × Alternative)} {x y : List DumpLine}
    (hx : EndsAlternatives x) (hy : EndsAlternatives y) {i : Nat}
    (h : dumpRest depth i rest ++ x = dumpRest depth i rest' ++ y) : rest = rest' ∧ x = y := by
  induction rest generalizing rest' i with
  | nil =>
    rcases rest' with _ | ⟨⟨separator, a⟩, more⟩
    · exact ⟨rfl, h⟩
    · obtain rfl : x = dumpRest depth i ((separator, a) :: more) ++ y := h
      exact absurd rfl (hx.1 (separator.dump depth _) (by simp [dumpRest]) i)
  | cons pair more ih =>
    obtain ⟨separator, a⟩ := pair
    rcases rest' with _ | ⟨⟨separator', a'⟩, more'⟩
    · obtain rfl : dumpRest depth i ((separator, a) :: more) ++ x = y := h
      exact absurd rfl (hy.1 (separator.dump depth _) (by simp [dumpRest]) i)
    · simp only [dumpRest, List.cons_append, List.append_assoc] at h
      obtain ⟨hseparator, halternative⟩ := List.cons.inj h
      obtain ⟨rfl, hmore⟩ := Alternative.dump_append_inj _ _
        (endsList_elements_dumpRest _ _ more hx) (endsList_elements_dumpRest _ _ more' hy)
        halternative
      obtain ⟨rfl, hxy⟩ := ih hmore
      rw [Token.dump_inj hseparator]
      exact ⟨rfl, hxy⟩

theorem alternatives_append_inj {a b : Alternative} {rest rest' : List (Token × Alternative)}
    {x y : List DumpLine} (hx : EndsAlternatives x) (hy : EndsAlternatives y)
    {label : Option String} {i : Nat}
    (h : a.dump depth label ++ (dumpRest depth i rest ++ x)
      = b.dump depth label ++ (dumpRest depth i rest' ++ y)) : a = b ∧ rest = rest' ∧ x = y := by
  obtain ⟨hab, hrest⟩ := Alternative.dump_append_inj _ _
    (endsList_elements_dumpRest _ _ rest hx) (endsList_elements_dumpRest _ _ rest' hy) h
  exact ⟨hab, dumpRest_append_inj _ hx hy hrest⟩

/-- Before the closing token stands at most the word that there is no separator. -/
theorem endsAlternatives_close {ls below : List DumpLine}
    (h : ∀ l ∈ ls, l.label = some "separatorTokens") (close : Token) :
    EndsAlternatives (ls ++ close.dump depth (some "closeToken") :: below) := by
  rcases ls with _ | ⟨l, ls⟩
  · exact ⟨endsList_of_label (by simp) rfl, endsList_of_label (by simp) rfl⟩
  · have hl := h l List.mem_cons_self
    exact ⟨endsList_of_label (by simp) hl, endsList_of_label (by simp) hl⟩

theorem dump_inj {p q : Pattern} (h : p.dump depth label = q.dump depth label) : p = q := by
  obtain ⟨openToken, first, rest, close, flags⟩ := p
  obtain ⟨openToken', first', rest', close', flags'⟩ := q
  simp only [dump, List.cons_append, List.append_assoc, List.cons.injEq, true_and] at h
  obtain ⟨hopen, halternatives⟩ := h
  obtain ⟨rfl, rfl, hend⟩ := alternatives_append_inj _
    (endsAlternatives_close _ (by split <;> simp) close)
    (endsAlternatives_close _ (by split <;> simp) close') halternatives
  obtain ⟨hclose, hflags⟩ := List.cons.inj (List.append_cancel_left hend)
  rw [Token.dump_inj hopen, Token.dump_inj hclose, Flags.dump_inj _ _ hflags]

end Pattern

end Nodes

/-! ## The dump -/

namespace Node

theorem dumpLines_inj {m n : Node} (h : m.dumpLines = n.dumpLines) : m = n := by
  have htype : m.type = n.type := m.headed.type_eq n.headed (congrArg (· ++ []) h)
  cases m <;> cases n <;> cases htype
  · rw [Pattern.dump_inj _ _ h]
  · have hend : EndsList "elements" [] := by simp [EndsList]
    rw [(Alternative.dump_append_inj _ _ hend hend (congrArg (· ++ []) h)).1]
  · rw [(Character.prefixCode_dump _ _).inj h]
  · rw [(CharacterClass.prefixCode_dump _ _).inj h]
  · rw [(CharacterClassRange.prefixCode_dump _ _).inj h]
  · rw [(Quantifier.prefixCode_dump _ _).inj h]
  · rw [Flags.dump_inj _ _ h]
  · rw [(EscapeSequence.prefixCode_dump _ _).inj h]
  · rw [(WordCharacterSet.prefixCode_dump _ _).inj h]
  · rw [(Gap.prefixCode_dump _ _).inj h]

/-- A dump tells all that its tree holds. -/
theorem dump_eq_iff (m n : Node) : m.dump = n.dump ↔ m = n := by
  constructor
  · intro h
    exact dumpLines_inj (m.headed.isDump.join_text_inj n.headed.isDump h)
  · rintro rfl
    rfl

/-- A token whose text looks like the end of a token and a line below it. -/
example : (character (.literal (.plain .character "a'>\n  code: <b"))).dump
    = "<Character 'a\\'>\\n  code: <b'>\n" := by decide +kernel

end Node

end RegexLiteral
