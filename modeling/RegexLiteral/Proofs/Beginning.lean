import RegexLiteral.Proofs.Unambiguous

/-!
# Beginnings of literals

A row of items that a literal has been read from is viable if it can be completed to one, and a row
is doomed if nothing that follows makes it one. Both are said of alternatives first (`Viable`,
`Doomed`) and carried over the elements, the alternatives and the flags that stand before. A sigil
is told from literal characters by what follows, so a doomed row ends with the last character of a
sigil: behind it nothing can change what has been read before it.
-/

namespace RegexLiteral

namespace Written

variable {x y z u v w r used rest : List Item} {cs ds : List Char}

/-! ## Where sigils end -/

/-- Digits and commas stand between the braces. -/
theorem BraceForm.exists_body (h : BraceForm cs) : ∃ body, cs = '\x7b' :: (body ++ ['\x7d'])
    ∧ ∀ c ∈ body, c = ',' ∨ Text.isDigit c := by
  cases h with
  | @exactly ds _ hd => exact ⟨ds, rfl, fun c hc => .inr (hd c hc)⟩
  | @atLeast ds _ hd =>
    refine ⟨ds ++ [','], by simp, fun c hc => ?_⟩
    rcases List.mem_append.1 hc with hc | hc
    · exact .inr (hd c hc)
    · exact .inl (List.mem_singleton.1 hc)
  | @between ds es _ hd _ he =>
    refine ⟨ds ++ ',' :: es, by simp, fun c hc => ?_⟩
    rcases List.mem_append.1 hc with hc | hc
    · exact .inr (hd c hc)
    · exact (List.mem_cons.1 hc).imp_right (he c)

/-- The closing brace comes last, and only there. -/
theorem BraceForm.exists_closed (h : BraceForm cs) : ∃ as, cs = as ++ ['\x7d'] ∧ '\x7d' ∉ as := by
  obtain ⟨body, rfl, hbody⟩ := h.exists_body
  refine ⟨'\x7b' :: body, rfl, fun hmem => ?_⟩
  rcases List.mem_cons.1 hmem with h | h
  · exact absurd h (by decide)
  · exact absurd (hbody _ h) (by decide)

theorem close_append_inj {as bs : List Char} (ha : '\x7d' ∉ as) (hb : '\x7d' ∉ bs)
    (h : as.map Item.char ++ .char '\x7d' :: x = bs.map Item.char ++ .char '\x7d' :: y) :
    as = bs ∧ x = y := by
  obtain ⟨hmap, hxy⟩ := append_cons_inj (by simpa using ha) (by simpa using hb) h
  exact ⟨(List.map_inj_right fun _ _ => Item.char.inj).1 hmap, hxy⟩

/-- Braces end where the items tell, whatever stands behind them. -/
theorem BraceForm.append_inj (hc : BraceForm cs) (hd : BraceForm ds)
    (h : cs.map Item.char ++ x = ds.map Item.char ++ y) : cs = ds ∧ x = y := by
  obtain ⟨as, rfl, ha⟩ := hc.exists_closed
  obtain ⟨bs, rfl, hb⟩ := hd.exists_closed
  simp only [List.map_append, List.append_assoc] at h
  obtain ⟨rfl, hxy⟩ := close_append_inj ha hb h
  exact ⟨rfl, hxy⟩

/-- The last characters of sigils. -/
def sigilEnds : List Char := '\x7d' :: signs

/-- What stands in the braces before their last character. -/
theorem BraceForm.mem_init {as bs : List Char} (h : BraceForm (as ++ bs)) (hne : bs ≠ [])
    {a : Char} (ha : a ∈ as) : a = '\x7b' ∨ a = ',' ∨ Text.isDigit a := by
  obtain ⟨body, hbody, hmem⟩ := h.exists_body
  obtain ⟨cs, b, rfl⟩ := (List.eq_nil_or_concat bs).resolve_left hne
  have hinit : as ++ cs = '\x7b' :: body := by
    rw [List.concat_eq_append, ← List.append_assoc, ← List.cons_append] at hbody
    exact (List.append_inj' hbody rfl).1
  have ha : a ∈ '\x7b' :: body := by
    rw [← hinit]
    exact List.mem_append_left _ ha
  exact (List.mem_cons.1 ha).imp_right (hmem a)

/-- What follows the last character of a sigil is no part of braces that begin before it. -/
theorem OpensBraces.of_append_of_end {a : Char} (ha : a ∈ sigilEnds)
    (h : OpensBraces (u ++ [.char a] ++ r)) : OpensBraces (u ++ [.char a]) := by
  rcases h.append_cases with h | ⟨as, bs, hform, hne, has, -⟩
  · exact h
  -- The character would stand within the braces.
  have hmem : Item.char a ∈ as.map Item.char := by
    rw [← has]
    simp
  obtain ⟨b, hb, hba⟩ := List.mem_map.1 hmem
  obtain rfl := Item.char.inj hba
  have hends : ∀ a ∈ sigilEnds, ¬ (a = '\x7b' ∨ a = ',' ∨ Text.isDigit a) := by
    simp [sigilEnds, signs, Text.isDigit]
  exact absurd (hform.mem_init hne hb) (hends b ha)

theorem BeginsSigil.of_append_of_end {a : Char} (ha : a ∈ sigilEnds)
    (h : BeginsSigil (u ++ [.char a] ++ r)) : BeginsSigil (u ++ [.char a]) := by
  rcases h with ⟨c, hc, t, h⟩ | h
  · cases u with
    | nil => exact .inl ⟨c, hc, [], by rw [(List.cons.inj h).1]; rfl⟩
    | cons i u => exact .inl ⟨c, hc, _, by rw [← (List.cons.inj h).1]; rfl⟩
  · exact .inr (h.of_append_of_end ha)

theorem BeginsSigil.mono (h : BeginsSigil x) : BeginsSigil (x ++ y) := by
  rcases h with ⟨c, hc, t, rfl⟩ | h
  · exact .inl ⟨c, hc, _, rfl⟩
  · exact .inr h.mono

/-- A complete sigil, whatever its numbers. -/
inductive SigilForm : List Item → Prop
  | sign {a : Char} (h : a ∈ signs) : SigilForm [.char a]
  | braces {cs : List Char} (h : BraceForm cs) : SigilForm (cs.map .char)

theorem SigilForm.beginsSigil (h : SigilForm z) : BeginsSigil z := by
  cases h with
  | sign h => exact .inl ⟨_, h, [], rfl⟩
  | braces h => exact .inr ⟨_, h, List.prefix_refl _⟩

theorem BeginsSigil.exists_form (h : BeginsSigil x) : ∃ z y, SigilForm z ∧ x = z ++ y := by
  rcases h with ⟨a, ha, y, rfl⟩ | ⟨cs, hcs, y, rfl⟩
  · exact ⟨_, y, .sign ha, rfl⟩
  · exact ⟨_, y, .braces hcs, rfl⟩

theorem SigilForm.exists_end (h : SigilForm z) : ∃ u, ∃ a ∈ sigilEnds, z = u ++ [.char a] := by
  cases h with
  | sign h => exact ⟨[], _, List.mem_cons_of_mem _ h, rfl⟩
  | braces h =>
    obtain ⟨as, rfl, -⟩ := h.exists_closed
    exact ⟨as.map .char, '\x7d', List.mem_cons_self, by simp⟩

/-! ## What an alternative can begin with -/

/-- What completes an element that has been begun. -/
def completions : List (List Char) := [[], ['x'], [']'], ['x', ']']]

/-- Elements of an alternative, the last of which may still have to be completed. -/
def Viable (used : List Item) : Prop :=
  ∃ after ∈ completions, ∃ es, Fits es ∧ es.flatMap Element.items = used ++ after.map .char

/-- No completion goes on with braces. -/
theorem noBracePart_of_mem_completions {after : List Char} (h : after ∈ completions) :
    NoBracePart (after.map .char) := by
  simp only [completions, List.mem_cons, List.not_mem_nil, or_false] at h
  rintro c rest hc
  rcases h with rfl | rfl | rfl | rfl
  · cases hc
  all_goals
    rw [← Item.char.inj (List.cons.inj hc).1]
    decide

theorem viable_nil : Viable [] := ⟨[], by decide, [], trivial, rfl⟩

/-- An element that no sigil begins with can stand before what is viable. -/
theorem Viable.cons {e : Element} (h : Viable used) (hb : ¬ OpensBraces (e.items ++ used)) :
    Viable (e.items ++ used) := by
  obtain ⟨after, hafter, es, hes, hitems⟩ := h
  refine ⟨after, hafter, e :: es, ⟨?_, hes⟩, ?_⟩
  · rw [hitems, ← List.append_assoc]
    exact fun hob =>
      hb (hob.of_append_of_noBracePart (noBracePart_of_mem_completions hafter))
  · rw [List.flatMap_cons, hitems, List.append_assoc]

theorem not_opensBraces_of_head {i : Item} (h : i ≠ .char '\x7b') : ¬ OpensBraces (i :: x) := by
  intro hb
  obtain ⟨rest, hx⟩ := hb.head
  exact h (List.cons.inj hx).1

/-- The beginning of a single element that no sigil begins with. -/
theorem viable_of_element (e : Element) (after : List Char) (hafter : after ∈ completions)
    (h : e.items = used ++ after.map .char) (hb : ¬ OpensBraces e.items) : Viable used := by
  refine ⟨after, hafter, [e], ⟨?_, trivial⟩, ?_⟩
  · rwa [List.flatMap_nil, List.append_nil]
  · rw [List.flatMap_singleton, h]

/-- A backslash that waits for its character, or nothing. -/
inductive Waiting : List Item → Prop
  | none : Waiting []
  | slash : Waiting [.char '\\']

/-- The beginning of a body of a class. -/
def ClassBegun (used : List Item) : Prop :=
  ∃ (body : List ClassAtom) (end' : List Item), Waiting end'
    ∧ used = body.flatMap ClassAtom.items ++ end'

theorem ClassBegun.append (h : ClassBegun used) (as : List ClassAtom) :
    ClassBegun (as.flatMap ClassAtom.items ++ used) := by
  obtain ⟨body, end', hend, rfl⟩ := h
  exact ⟨as ++ body, end', hend, by rw [List.flatMap_append, List.append_assoc]⟩

theorem Waiting.classBegun (h : Waiting used) : ClassBegun used := ⟨[], used, h, rfl⟩

theorem Waiting.viable (h : Waiting used) : Viable used := by
  cases h with
  | none => exact viable_nil
  | slash =>
    exact viable_of_element (.atom (.pair 'x')) ['x'] (by decide) rfl
      (not_opensBraces_of_head (by simp))

theorem ClassBegun.viable (h : ClassBegun used) : Viable (.char '[' :: used) := by
  obtain ⟨body, end', hend, rfl⟩ := h
  have hb (x : List Item) : ¬ OpensBraces (.char '[' :: x) := not_opensBraces_of_head (by simp)
  cases hend with
  | none =>
    exact viable_of_element (.atom (.charClass body)) [']'] (by decide)
      (by simp [Element.items, Atom.items]) (hb _)
  | slash =>
    exact viable_of_element (.atom (.charClass (body ++ [.pair 'x']))) ['x', ']'] (by decide)
      (by simp [Element.items, Atom.items, ClassAtom.items]) (hb _)

theorem viable_literals : ∀ {cs : List Char}, (∀ c ∈ cs, c ∉ reserved ∧ c ≠ '\x7d') →
    Viable (cs.map .char)
  | [], _ => viable_nil
  | c :: cs, h => by
    have hc := (h c List.mem_cons_self).1
    refine (viable_literals fun d hd => h d (List.mem_cons_of_mem _ hd)).cons
      (e := .atom (.literal c hc)) fun hob => ?_
    obtain ⟨ds, hds, t, ht⟩ := hob
    obtain ⟨as, rfl, -⟩ := hds.exists_closed
    have hmem : Item.char '\x7d' ∈ (c :: cs).map Item.char := by
      change (as ++ ['\x7d']).map Item.char ++ t = (c :: cs).map Item.char at ht
      rw [← ht]
      simp
    obtain ⟨d, hd, hd'⟩ := List.mem_map.1 hmem
    exact (h d hd).2 (Item.char.inj hd')

/-- Without its last brace, a sigil between braces is a row of characters. -/
theorem BraceForm.viable_init {as bs : List Char} (h : BraceForm (as ++ bs)) (hne : bs ≠ []) :
    Viable (as.map .char) := by
  refine viable_literals fun a ha => ?_
  have hplain : ∀ d ∈ '\x7d' :: reserved, ¬ (d = '\x7b' ∨ d = ',' ∨ Text.isDigit d) := by
    simp [reserved, Text.isDigit]
  have ha' := h.mem_init hne ha
  exact ⟨fun hr => hplain a (List.mem_cons_of_mem _ hr) ha',
    fun hr => hplain a (hr ▸ List.mem_cons_self) ha'⟩

/-! ## What no alternative begins with -/

/-- No alternative begins with this, and what follows cannot change what it begins with. -/
structure Doomed (v : List Item) : Prop where
  closed : ∃ u, ∃ a ∈ sigilEnds, v = u ++ [.char a]
  never : ∀ es x r, Fits es → EndsAlternative x → es.flatMap Element.items ++ x ≠ v ++ r

/-- Whether a sigil begins is settled by what is doomed. -/
theorem Doomed.not_beginsSigil (h : Doomed v) (hb : ¬ BeginsSigil (v ++ w)) (r : List Item) :
    ¬ BeginsSigil (v ++ r) := by
  obtain ⟨u, a, ha, rfl⟩ := h.closed
  exact fun h => hb (h.of_append_of_end ha).mono

theorem closed_append (h : ∃ u, ∃ a ∈ sigilEnds, v = u ++ [.char a]) (x : List Item) :
    ∃ u, ∃ a ∈ sigilEnds, x ++ v = u ++ [.char a] := by
  obtain ⟨u, a, ha, rfl⟩ := h
  exact ⟨x ++ u, a, ha, by rw [List.append_assoc]⟩

/-- An element before what is doomed does not help, if no sigil begins behind the element. -/
theorem Doomed.cons {e : Element} (h : Doomed v) (hb : ¬ BeginsSigil (v ++ w)) :
    Doomed (e.items ++ v) where
  closed := closed_append h.closed _
  never := by
    intro es x r hes hx hitems
    rw [List.append_assoc] at hitems
    cases es with
    | nil =>
      rw [show x = _ from hitems] at hx
      exact e.not_endsAlternative _ hx
    | cons f es =>
      rw [List.flatMap_cons, List.append_assoc] at hitems
      obtain ⟨-, hitems⟩ := Element.items_append_inj (hes.2.not_beginsSigil hx)
        (h.not_beginsSigil hb r) hitems
      exact h.never es x r hes.2 hx hitems

/-- No alternative begins with a sigil. -/
theorem SigilForm.doomed (h : SigilForm z) : Doomed z where
  closed := h.exists_end
  never es x r hes hx hitems := by
    refine hes.not_beginsSigil hx ?_
    rw [hitems]
    exact h.beginsSigil.mono

/-- What an alternative goes on with behind its first atom, if a sigil begins there: one that can be
read, and nothing that begins with a sigil. -/
theorem exists_sigil {es : List Element} {a : Atom} (hes : Fits es) (hx : EndsAlternative x)
    (h : es.flatMap Element.items ++ x = a.items ++ y) (hy : BeginsSigil y) :
    ∃ (s : Sigil) (r : List Item), s.items ++ r = y ∧ ¬ BeginsSigil r := by
  cases es with
  | nil =>
    rw [show x = _ from h] at hx
    exact absurd hx ((Element.atom a).not_endsAlternative _)
  | cons e es =>
    have hend := hes.2.not_beginsSigil hx
    rw [List.flatMap_cons, List.append_assoc] at h
    cases e with
    | atom b =>
      obtain ⟨-, hxy⟩ := Atom.items_append_inj h
      exact absurd (hxy ▸ hy) hend
    | repeated b s =>
      rw [Element.items, List.append_assoc] at h
      obtain ⟨-, hxy⟩ := Atom.items_append_inj h
      exact ⟨s, _, hxy, hend⟩
    | quantifier q => exact absurd h.symm (a.items_ne_quantifier q)

/-- No second sigil follows a sigil. -/
theorem doomed_of_two_sigils (a : Atom) (s : Sigil) (h : SigilForm z) :
    Doomed (a.items ++ (s.items ++ z)) where
  closed := closed_append (closed_append h.exists_end _) _
  never es x r hes hx hitems := by
    rw [List.append_assoc, List.append_assoc] at hitems
    obtain ⟨t, r', ht, hend⟩ := exists_sigil hes hx hitems (s.beginsSigil _)
    obtain ⟨-, rfl⟩ := Sigil.items_append_inj ht
    exact hend h.beginsSigil.mono

theorem Upper.exists_form (n : Number) (u : Upper) : ∃ cs, BraceForm cs
    ∧ cs.map .char = .char '\x7b' :: (n.items ++ (u.items ++ [.char '\x7d'])) := by
  cases u with
  | alone =>
    exact ⟨_, .exactly n.digits_ne_nil n.isDigit_of_mem, by simp [items, Number.items]⟩
  | unbounded =>
    exact ⟨_, .atLeast n.digits_ne_nil n.isDigit_of_mem, by simp [items, Number.items]⟩
  | upTo m =>
    exact ⟨_, .between n.digits_ne_nil n.isDigit_of_mem m.digits_ne_nil m.isDigit_of_mem, by
      simp [items, Number.items]⟩

/-- Braces with numbers that are wrong are no sigil, and no characters either. -/
theorem doomed_of_braces (a : Atom) (h : BraceForm cs) (hs : ∀ s : Sigil, s.items ≠ cs.map .char) :
    Doomed (a.items ++ cs.map .char) where
  closed := closed_append (SigilForm.braces h).exists_end _
  never es x r hes hx hitems := by
    rw [List.append_assoc] at hitems
    obtain ⟨s, r', ht, -⟩ := exists_sigil hes hx hitems (SigilForm.braces h).beginsSigil.mono
    obtain ⟨body, hbody, -⟩ := h.exists_body
    obtain ⟨n, u, hu, rfl⟩ := Sigil.exists_upper (x := r') (by rw [ht, hbody]; rfl)
    obtain ⟨ds, hds, hitems'⟩ := u.exists_form n
    rw [Upper.items_sigil, ← hitems'] at ht
    obtain ⟨rfl, -⟩ := hds.append_inj h ht
    exact hs (u.sigil n hu) (by rw [Upper.items_sigil, hitems'])

end Written

end RegexLiteral
