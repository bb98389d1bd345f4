import RegexLiteral.Proofs.Kind
import RegexLiteral.Proofs.PrefixCode
import RegexLiteral.Proofs.Written

/-!
# The grammar is unambiguous

A row of items is written in one way only. Read from the left, every part of a derivation ends where
the items tell, whatever stands behind it: an atom by its first item, a run of digits where the
digits end, and an element where no sigil begins (`BeginsSigil`).
-/

namespace RegexLiteral

namespace Written

variable {x y : List Item}

/-! ## Classes -/

theorem ClassAtom.items_append_inj {a b : ClassAtom} (h : a.items ++ x = b.items ++ y) :
    a = b ∧ x = y := by
  cases a with
  | char c hc =>
    cases b with
    | char d _ =>
      obtain ⟨hcd, hxy⟩ := List.cons.inj h
      obtain rfl := Item.char.inj hcd
      exact ⟨rfl, hxy⟩
    | pair d => exact absurd (Item.char.inj (List.cons.inj h).1) hc.2
    | node n e _ => simp [items] at h
  | pair c =>
    cases b with
    | char d hd => exact absurd (Item.char.inj (List.cons.inj h).1).symm hd.2
    | pair d =>
      obtain ⟨hcd, hxy⟩ := List.cons.inj (List.cons.inj h).2
      obtain rfl := Item.char.inj hcd
      exact ⟨rfl, hxy⟩
    | node n e _ => simp [items] at h
  | node n e he =>
    cases b with
    | node m f hf =>
      obtain ⟨hnm, hxy⟩ := List.cons.inj h
      obtain rfl := Item.node.inj hnm
      obtain rfl := Option.some.inj (he.symm.trans hf)
      exact ⟨rfl, hxy⟩
    | _ => simp [items] at h

/-- No atom of a class begins with the closing bracket. -/
theorem ClassAtom.items_ne_close (a : ClassAtom) : a.items ++ x ≠ .char ']' :: y := by
  intro h
  cases a with
  | char c hc => exact hc.1 (Item.char.inj (List.cons.inj h).1)
  | pair code => simp [items] at h
  | node n e _ => simp [items] at h

theorem ClassAtom.body_append_inj {as bs : List ClassAtom}
    (h : as.flatMap items ++ .char ']' :: x = bs.flatMap items ++ .char ']' :: y) :
    as = bs ∧ x = y := by
  have hcode : PrefixCode items := fun _ _ _ _ => items_append_inj
  obtain ⟨rfl, hxy⟩ := hcode.flatMap_append_inj (fun a _ => a.items_ne_close.symm)
    (fun a _ => a.items_ne_close.symm) h
  exact ⟨rfl, (List.cons.inj hxy).2⟩

/-! ## Atoms -/

theorem Atom.items_append_inj {a b : Atom} (h : a.items ++ x = b.items ++ y) : a = b ∧ x = y := by
  have hslash : '\\' ∈ reserved := by decide
  have hopen : '[' ∈ reserved := by decide
  cases a with
  | literal c hc =>
    cases b with
    | literal d _ =>
      obtain ⟨hcd, hxy⟩ := List.cons.inj h
      obtain rfl := Item.char.inj hcd
      exact ⟨rfl, hxy⟩
    | pair d =>
      obtain rfl := Item.char.inj (List.cons.inj h).1
      exact absurd hslash hc
    | charClass body =>
      obtain rfl := Item.char.inj (List.cons.inj h).1
      exact absurd hopen hc
    | node n e _ => simp [items] at h
  | pair c =>
    cases b with
    | literal d hd =>
      obtain rfl := Item.char.inj (List.cons.inj h).1
      exact absurd hslash hd
    | pair d =>
      obtain ⟨hcd, hxy⟩ := List.cons.inj (List.cons.inj h).2
      obtain rfl := Item.char.inj hcd
      exact ⟨rfl, hxy⟩
    | _ => simp [items] at h
  | charClass body =>
    cases b with
    | literal d hd =>
      obtain rfl := Item.char.inj (List.cons.inj h).1
      exact absurd hopen hd
    | charClass body' =>
      have h' : body.flatMap ClassAtom.items ++ .char ']' :: x
          = body'.flatMap ClassAtom.items ++ .char ']' :: y := by simpa [items] using h
      obtain ⟨rfl, hxy⟩ := ClassAtom.body_append_inj h'
      exact ⟨rfl, hxy⟩
    | _ => simp [items] at h
  | node n e he =>
    cases b with
    | node m f hf =>
      obtain ⟨hnm, hxy⟩ := List.cons.inj h
      obtain rfl := Item.node.inj hnm
      obtain rfl := RegexLiteral.Element.atom.inj (Option.some.inj (he.symm.trans hf))
      exact ⟨rfl, hxy⟩
    | _ => simp [items] at h

/-! ## Sigils -/

/-- No digit stands first. -/
def NoDigit (is : List Item) : Prop := ∀ d rest, is = .char d :: rest → ¬ Text.isDigit d

theorem noDigit_char {c : Char} (h : ¬ Text.isDigit c) : NoDigit (.char c :: x) := by
  intro d rest hd
  rwa [← Item.char.inj (List.cons.inj hd).1]

theorem digits_append_inj (hx : NoDigit x) (hy : NoDigit y) : ∀ {ds es : List Char},
    (∀ d ∈ ds, Text.isDigit d) → (∀ e ∈ es, Text.isDigit e) →
    ds.map Item.char ++ x = es.map Item.char ++ y → ds = es ∧ x = y
  | [], [], _, _, h => ⟨rfl, h⟩
  | [], e :: es, _, he, h => absurd (he e List.mem_cons_self) (hx e _ h)
  | d :: ds, [], hd, _, h => absurd (hd d List.mem_cons_self) (hy d _ h.symm)
  | d :: ds, e :: es, hd, he, h => by
    obtain ⟨hde, h'⟩ := List.cons.inj h
    obtain ⟨rfl, hxy⟩ := digits_append_inj hx hy (fun d hd' => hd d (List.mem_cons_of_mem _ hd'))
      (fun e he' => he e (List.mem_cons_of_mem _ he')) h'
    exact ⟨by rw [Item.char.inj hde], hxy⟩

namespace Number

variable (n m : Number)

theorem digits_ne_nil : n.digits ≠ [] := by
  intro h
  have := n.reads
  simp [Text.readNumber?, h] at this

theorem isDigit_of_mem : ∀ d ∈ n.digits, Text.isDigit d := by
  have := n.reads
  unfold Text.readNumber? at this
  dsimp only at this
  split at this
  · rename_i h
    simpa using h.2.1
  · simp at this

variable {n m} in
theorem ext_digits (h : n.digits = m.digits) : n = m := by
  obtain ⟨ds, v, hn⟩ := n
  obtain ⟨es, w, hm⟩ := m
  obtain rfl : ds = es := h
  obtain rfl := Option.some.inj (hn.symm.trans hm)
  rfl

variable {n m} in
theorem items_append_inj (hx : NoDigit x) (hy : NoDigit y) (h : n.items ++ x = m.items ++ y) :
    n = m ∧ x = y := by
  obtain ⟨hd, hxy⟩ := digits_append_inj hx hy n.isDigit_of_mem m.isDigit_of_mem h
  exact ⟨ext_digits hd, hxy⟩

/-- A number does not begin where no digit stands. -/
theorem items_append_ne (hy : NoDigit y) : n.items ++ x ≠ y := by
  intro h
  cases hd : n.digits with
  | nil => exact n.digits_ne_nil hd
  | cons d ds =>
    rw [items, hd] at h
    exact hy d _ h.symm (n.isDigit_of_mem d (by rw [hd]; exact List.mem_cons_self))

end Number

/-- The sigils of a single character. -/
def signs : List Char := ['+', '*', '?']

def BeginsSigil (is : List Item) : Prop :=
  (∃ c ∈ signs, ∃ rest, is = .char c :: rest) ∨ OpensBraces is

namespace Sigil

theorem beginsSigil (s : Sigil) (x : List Item) : BeginsSigil (s.items ++ x) := by
  cases s with
  | plus => exact .inl ⟨'+', by decide, x, rfl⟩
  | star => exact .inl ⟨'*', by decide, x, rfl⟩
  | question => exact .inl ⟨'?', by decide, x, rfl⟩
  | exactly n =>
    refine .inr ⟨_, .exactly n.digits_ne_nil n.isDigit_of_mem, x, ?_⟩
    simp [items, Number.items]
  | atLeast n =>
    refine .inr ⟨_, .atLeast n.digits_ne_nil n.isDigit_of_mem, x, ?_⟩
    simp [items, Number.items]
  | between n m _ =>
    refine .inr ⟨_, .between n.digits_ne_nil n.isDigit_of_mem m.digits_ne_nil m.isDigit_of_mem,
      x, ?_⟩
    simp [items, Number.items]

theorem noDigit_comma : NoDigit (.char ',' :: x) := noDigit_char (by decide)

theorem noDigit_close : NoDigit (.char '\x7d' :: x) := noDigit_char (by decide)

end Sigil

/-- What stands between the first number and the closing brace. -/
inductive Upper
  | alone
  | unbounded
  | upTo (m : Number)

namespace Upper

def items : Upper → List Item
  | alone => []
  | unbounded => [.char ',']
  | upTo m => .char ',' :: m.items

/-- The comma, the second number and the upper bound, behind the number `n`. -/
def parts (n : Number) : Upper → Option Token × Option Token × Bound
  | alone => (none, none, .finite n.value)
  | unbounded => (some Sigil.comma, none, .infinite)
  | upTo m => (some Sigil.comma, some m.token, .finite m.value)

def Ordered (n : Number) (u : Upper) : Prop := (u.parts n).2.2.allows n.value

/-- The sigil that the braces make up. -/
def sigil (n : Number) : (u : Upper) → u.Ordered n → Sigil
  | alone, _ => .exactly n
  | unbounded, _ => .atLeast n
  | upTo m, h => .between n m (of_decide_eq_true h)

section Sigils

variable {n : Number} {u : Upper} (hu : u.Ordered n)

theorem items_sigil :
    (u.sigil n hu).items = .char '\x7b' :: (n.items ++ (u.items ++ [.char '\x7d'])) := by
  cases u <;> simp [sigil, Sigil.items, items]

theorem tree_sigil : (u.sigil n hu).tree
    = .braces ⟨Sigil.openBrace, n.token, (u.parts n).1, (u.parts n).2.1, Sigil.closeBrace⟩ := by
  cases u <;> rfl

theorem min_sigil : (u.sigil n hu).min = n.value := by
  cases u <;> rfl

theorem max_sigil : (u.sigil n hu).max = (u.parts n).2.2 := by
  cases u <;> rfl

end Sigils

theorem noDigit (u : Upper) (x : List Item) : NoDigit (u.items ++ .char '\x7d' :: x) := by
  cases u with
  | alone => exact Sigil.noDigit_close
  | _ => exact Sigil.noDigit_comma

theorem items_append_inj {u v : Upper}
    (h : u.items ++ .char '\x7d' :: x = v.items ++ .char '\x7d' :: y) : u = v ∧ x = y := by
  cases u with
  | alone =>
    cases v with
    | alone => exact ⟨rfl, (List.cons.inj h).2⟩
    | _ => simp [items] at h
  | unbounded =>
    cases v with
    | alone => simp [items] at h
    | unbounded => exact ⟨rfl, (List.cons.inj (List.cons.inj h).2).2⟩
    | upTo m =>
      exact absurd (List.cons.inj h).2.symm (m.items_append_ne Sigil.noDigit_close)
  | upTo n =>
    cases v with
    | alone => simp [items] at h
    | unbounded => exact absurd (List.cons.inj h).2 (n.items_append_ne Sigil.noDigit_close)
    | upTo m =>
      obtain ⟨rfl, h'⟩ :=
        Number.items_append_inj Sigil.noDigit_close Sigil.noDigit_close (List.cons.inj h).2
      exact ⟨rfl, (List.cons.inj h').2⟩

end Upper

namespace Sigil

theorem exists_upper {s : Sigil} (h : s.items ++ x = .char '\x7b' :: y) :
    ∃ (n : Number) (u : Upper) (hu : u.Ordered n), s = u.sigil n hu := by
  cases s with
  | exactly n => exact ⟨n, .alone, by simp [Upper.Ordered, Upper.parts, Bound.allows], rfl⟩
  | atLeast n => exact ⟨n, .unbounded, rfl, rfl⟩
  | between n m hm => exact ⟨n, .upTo m, decide_eq_true hm, rfl⟩
  | _ => simp [items] at h

theorem braces_append_inj {s t : Sigil} {z : List Item} (hs : s.items ++ x = .char '\x7b' :: z)
    (h : s.items ++ x = t.items ++ y) : s = t ∧ x = y := by
  obtain ⟨n, u, hu, rfl⟩ := exists_upper hs
  obtain ⟨m, v, hv, rfl⟩ := exists_upper (h.symm.trans hs)
  rw [Upper.items_sigil, Upper.items_sigil] at h
  have h' : n.items ++ (u.items ++ .char '\x7d' :: x)
      = m.items ++ (v.items ++ .char '\x7d' :: y) := by simpa using h
  obtain ⟨rfl, h''⟩ := Number.items_append_inj (u.noDigit x) (v.noDigit y) h'
  obtain ⟨rfl, hxy⟩ := Upper.items_append_inj h''
  exact ⟨rfl, hxy⟩

theorem items_append_inj {s t : Sigil} (h : s.items ++ x = t.items ++ y) : s = t ∧ x = y := by
  cases s with
  | plus => cases t <;> simp_all [items]
  | star => cases t <;> simp_all [items]
  | question => cases t <;> simp_all [items]
  | exactly n => exact braces_append_inj rfl h
  | atLeast n => exact braces_append_inj rfl h
  | between n m hm => exact braces_append_inj rfl h

end Sigil

/-! ## Elements -/

/-- The opening brace, the digits, the comma and the closing brace of a sigil. -/
theorem BraceForm.mem {cs : List Char} (h : BraceForm cs) {c : Char} (hc : c ∈ cs) :
    c ∈ ['\x7b', ',', '\x7d'] ∨ Text.isDigit c := by
  cases h with
  | exactly _ hd =>
    simp only [List.cons_append, List.mem_cons, List.mem_append, List.not_mem_nil, or_false] at hc
    rcases hc with rfl | hc | rfl
    · exact .inl (by decide)
    · exact .inr (hd c hc)
    · exact .inl (by decide)
  | atLeast _ hd =>
    simp only [List.cons_append, List.mem_cons, List.mem_append, List.not_mem_nil, or_false] at hc
    rcases hc with rfl | hc | rfl | rfl
    · exact .inl (by decide)
    · exact .inr (hd c hc)
    · exact .inl (by decide)
    · exact .inl (by decide)
  | between _ hd _ he =>
    simp only [List.cons_append, List.append_assoc, List.mem_cons, List.mem_append,
      List.not_mem_nil, or_false] at hc
    rcases hc with rfl | hc | rfl | hc | rfl
    · exact .inl (by decide)
    · exact .inr (hd c hc)
    · exact .inl (by decide)
    · exact .inr (he c hc)
    · exact .inl (by decide)

/-- Where an alternative can end: before a slash or a pipe, or at the end of the input. -/
def EndsAlternative (is : List Item) : Prop :=
  is = [] ∨ ∃ c ∈ ['/', '|'], ∃ rest, is = .char c :: rest

theorem OpensBraces.mono (h : OpensBraces x) : OpensBraces (x ++ y) := by
  obtain ⟨cs, hcs, hp⟩ := h
  exact ⟨cs, hcs, hp.trans (List.prefix_append x y)⟩

/-- Where a row is cut, a sigil that it opens with stands before the cut or reaches over it. -/
theorem OpensBraces.append_cases (h : OpensBraces (x ++ y)) : OpensBraces x
    ∨ ∃ as bs, BraceForm (as ++ bs) ∧ bs ≠ [] ∧ x = as.map .char ∧ bs.map .char <+: y := by
  obtain ⟨cs, hcs, t, ht⟩ := h
  rcases List.append_eq_append_iff.1 ht with ⟨x', hx, -⟩ | ⟨x', hx, hy⟩
  · exact .inl ⟨cs, hcs, x', hx.symm⟩
  obtain ⟨as, bs, rfl, rfl, rfl⟩ := List.map_eq_append_iff.1 hx
  by_cases hbs : bs = []
  · rw [hbs, List.append_nil] at hcs
    exact .inl ⟨as, hcs, List.prefix_refl _⟩
  · exact .inr ⟨as, bs, hcs, hbs, rfl, t, hy.symm⟩

/-- No part of a sigil between braces stands first. -/
def NoBracePart (is : List Item) : Prop :=
  ∀ c rest, is = .char c :: rest → ¬ (c ∈ ['\x7b', ',', '\x7d'] ∨ Text.isDigit c)

/-- Braces do not reach over what is no part of them. -/
theorem OpensBraces.of_append_of_noBracePart (hy : NoBracePart y) (h : OpensBraces (x ++ y)) :
    OpensBraces x := by
  rcases h.append_cases with h | ⟨as, bs, hform, hne, -, t, rfl⟩
  · exact h
  · obtain ⟨b, bs, rfl⟩ := List.exists_cons_of_ne_nil hne
    exact absurd (hform.mem (by simp)) (hy b _ rfl)

theorem EndsAlternative.noBracePart (h : EndsAlternative y) : NoBracePart y := by
  rintro c rest rfl
  obtain h | ⟨d, hd, rest', h⟩ := h
  · cases h
  · have hends : ∀ d ∈ ['/', '|'], ¬ (d ∈ ['\x7b', ',', '\x7d'] ∨ Text.isDigit d) := by
      simp [Text.isDigit]
    rw [Item.char.inj (List.cons.inj h).1]
    exact hends d hd

/-- Braces do not reach over the end of an alternative. -/
theorem OpensBraces.of_append (hy : EndsAlternative y) (h : OpensBraces (x ++ y)) :
    OpensBraces x :=
  h.of_append_of_noBracePart hy.noBracePart

theorem OpensBraces.head (h : OpensBraces x) : ∃ rest, x = .char '\x7b' :: rest := by
  obtain ⟨cs, hcs, t, rfl⟩ := h
  cases hcs <;> exact ⟨_, rfl⟩

theorem EndsAlternative.not_beginsSigil (h : EndsAlternative x) : ¬ BeginsSigil x := by
  rintro (⟨d, hd, rest, rfl⟩ | hb)
  · obtain h | ⟨c, hc, rest', h⟩ := h
    · simp at h
    · have hsigns : ∀ d ∈ signs, d ∉ ['/', '|'] := by simp [signs]
      obtain rfl := Item.char.inj (List.cons.inj h).1
      exact hsigns d hd hc
  · obtain ⟨rest, rfl⟩ := hb.head
    obtain h | ⟨c, hc, rest', h⟩ := h
    · simp at h
    · obtain rfl := Item.char.inj (List.cons.inj h).1
      revert hc
      decide

/-- An atom begins with no reserved character, apart from the backslash and the bracket. -/
theorem Atom.items_append_ne {a : Atom} {c : Char} (hc : c ∈ ['/', '|', '+', '*', '?']) :
    a.items ++ x ≠ .char c :: y := by
  intro h
  cases a with
  | literal d hd =>
    have hreserved : ∀ d ∈ ['/', '|', '+', '*', '?'], d ∈ reserved := by simp [reserved]
    obtain rfl := Item.char.inj (List.cons.inj h).1
    exact hd (hreserved d hc)
  | pair code =>
    obtain rfl := Item.char.inj (List.cons.inj h).1
    revert hc
    decide
  | charClass body =>
    obtain rfl := Item.char.inj (List.cons.inj h).1
    revert hc
    decide
  | node n e _ => simp [items] at h

/-- A node that is a quantifier is no atom. -/
theorem Atom.items_ne_quantifier (a : Atom) (q : Quantifier) :
    a.items ++ x ≠ .node (.quantifier q) :: y := by
  intro h
  cases a with
  | node n b hb =>
    obtain rfl := Item.node.inj (List.cons.inj h).1
    simp [Node.element?] at hb
  | _ => simp [items] at h

namespace Element

theorem items_append_ne {e : Element} {c : Char} (hc : c ∈ ['/', '|', '+', '*', '?']) :
    e.items ++ x ≠ .char c :: y := by
  cases e with
  | atom a => exact Atom.items_append_ne hc
  | repeated a s =>
    rw [items, List.append_assoc]
    exact Atom.items_append_ne hc
  | quantifier q =>
    intro h
    simp [items] at h

theorem items_ne_nil (e : Element) : e.items ++ x ≠ [] := by
  rcases e with (_ | _ | _ | _) | ⟨_ | _ | _ | _, _⟩ | _ <;> simp [items, Atom.items]

theorem not_endsAlternative (e : Element) (x : List Item) : ¬ EndsAlternative (e.items ++ x) := by
  rintro (h | ⟨c, hc, rest, h⟩)
  · exact e.items_ne_nil h
  · have hends : ∀ d ∈ ['/', '|'], d ∈ ['/', '|', '+', '*', '?'] := by simp
    exact items_append_ne (hends c hc) h

/-- An element ends where no sigil begins. -/
theorem items_append_inj {e f : Element} (hx : ¬ BeginsSigil x) (hy : ¬ BeginsSigil y)
    (h : e.items ++ x = f.items ++ y) : e = f ∧ x = y := by
  cases e with
  | atom a =>
    cases f with
    | atom b =>
      obtain ⟨rfl, hxy⟩ := Atom.items_append_inj h
      exact ⟨rfl, hxy⟩
    | repeated b s =>
      rw [items, items, List.append_assoc] at h
      obtain ⟨-, rfl⟩ := Atom.items_append_inj h
      exact absurd (s.beginsSigil y) hx
    | quantifier q => exact absurd h (a.items_ne_quantifier q)
  | repeated a s =>
    rw [items, List.append_assoc] at h
    cases f with
    | atom b =>
      obtain ⟨-, rfl⟩ := Atom.items_append_inj h
      exact absurd (s.beginsSigil x) hy
    | repeated b t =>
      rw [items, List.append_assoc] at h
      obtain ⟨rfl, h'⟩ := Atom.items_append_inj h
      obtain ⟨rfl, hxy⟩ := Sigil.items_append_inj h'
      exact ⟨rfl, hxy⟩
    | quantifier q => exact absurd h (a.items_ne_quantifier q)
  | quantifier q =>
    cases f with
    | atom b => exact absurd h.symm (b.items_ne_quantifier q)
    | repeated b s =>
      rw [items, items, List.append_assoc] at h
      exact absurd h.symm (b.items_ne_quantifier q)
    | quantifier r =>
      obtain ⟨hqr, hxy⟩ := List.cons.inj h
      obtain rfl := Node.quantifier.inj (Item.node.inj hqr)
      exact ⟨rfl, hxy⟩

end Element

/-! ## Alternatives -/

/-- No sigil begins where an element begins, or where the alternative ends. -/
theorem Fits.not_beginsSigil : ∀ {es : List Element}, Fits es → EndsAlternative x →
    ¬ BeginsSigil (es.flatMap Element.items ++ x)
  | [], _, hx => hx.not_beginsSigil
  | e :: es, hes, hx => by
    rw [List.flatMap_cons]
    rintro (⟨c, hc, rest, h⟩ | hb)
    · have hsigns : ∀ d ∈ signs, d ∈ ['/', '|', '+', '*', '?'] := by simp [signs]
      rw [List.append_assoc] at h
      exact Element.items_append_ne (hsigns c hc) h
    · exact hes.1 (hb.of_append hx)

theorem Fits.items_append_inj (hx : EndsAlternative x) (hy : EndsAlternative y) :
    ∀ {es fs : List Element}, Fits es → Fits fs →
    es.flatMap Element.items ++ x = fs.flatMap Element.items ++ y → es = fs ∧ x = y
  | [], [], _, _, h => ⟨rfl, h⟩
  | [], f :: fs, _, _, h => by
    obtain rfl : x = _ := h
    rw [List.flatMap_cons, List.append_assoc] at hx
    exact absurd hx (f.not_endsAlternative _)
  | e :: es, [], _, _, h => by
    obtain rfl : _ = y := h
    rw [List.flatMap_cons, List.append_assoc] at hy
    exact absurd hy (e.not_endsAlternative _)
  | e :: es, f :: fs, he, hf, h => by
    rw [List.flatMap_cons, List.flatMap_cons, List.append_assoc, List.append_assoc] at h
    obtain ⟨rfl, h'⟩ := Element.items_append_inj (he.2.not_beginsSigil hx)
      (hf.2.not_beginsSigil hy) h
    obtain ⟨rfl, hxy⟩ := items_append_inj hx hy he.2 hf.2 h'
    exact ⟨rfl, hxy⟩

theorem Alternative.items_append_inj {a b : Alternative} (hx : EndsAlternative x)
    (hy : EndsAlternative y) (h : a.items ++ x = b.items ++ y) : a = b ∧ x = y := by
  obtain ⟨es, hes⟩ := a
  obtain ⟨fs, hfs⟩ := b
  obtain ⟨rfl, hxy⟩ := Fits.items_append_inj hx hy hes hfs h
  exact ⟨rfl, hxy⟩

/-! ## Literals -/

/-- The alternatives behind the first, and the closing slash. -/
theorem endsAlternative_rest (as : List Alternative) (x : List Item) :
    EndsAlternative (as.flatMap (fun a => .char '|' :: a.items) ++ .char '/' :: x) := by
  cases as with
  | nil => exact .inr ⟨'/', by decide, x, rfl⟩
  | cons a as => exact .inr ⟨'|', by decide, _, rfl⟩

theorem rest_append_inj : ∀ {as bs : List Alternative},
    as.flatMap (fun a => .char '|' :: a.items) ++ .char '/' :: x
      = bs.flatMap (fun a => .char '|' :: a.items) ++ .char '/' :: y → as = bs ∧ x = y
  | [], [], h => ⟨rfl, (List.cons.inj h).2⟩
  | [], b :: bs, h => by simp at h
  | a :: as, [], h => by simp at h
  | a :: as, b :: bs, h => by
    rw [List.flatMap_cons, List.flatMap_cons, List.append_assoc, List.append_assoc] at h
    obtain ⟨rfl, h'⟩ := Alternative.items_append_inj (endsAlternative_rest as x)
      (endsAlternative_rest bs y) (List.cons.inj h).2
    obtain ⟨rfl, hxy⟩ := rest_append_inj h'
    exact ⟨rfl, hxy⟩

theorem letter_injective {f g : Flag} (h : f.letter = g.letter) : f = g := by
  have hf := Flag.ofLetter?_letter f
  rw [h, Flag.ofLetter?_letter] at hf
  exact (Option.some.inj hf).symm

theorem Flags.items_inj {f g : Flags} (h : f.items = g.items) : f = g := by
  cases f with
  | letters fs hfs =>
    cases g with
    | letters gs hgs =>
      have hinj : ∀ {fs gs : List Flag}, fs.map (fun f => Item.char f.letter)
          = gs.map (fun f => Item.char f.letter) → fs = gs := fun h =>
        List.map_inj_right (fun _ _ hfg => letter_injective (Item.char.inj hfg)) |>.1 h
      obtain rfl := hinj h
      rfl
    | node g => cases fs <;> simp [items] at h
  | node f =>
    cases g with
    | letters gs hgs => cases gs <;> simp [items] at h
    | node g =>
      obtain rfl := Node.flags.inj (Item.node.inj (List.cons.inj h).1)
      rfl

theorem Pattern.items_inj {p q : Pattern} (h : p.items = q.items) : p = q := by
  obtain ⟨a, as, f⟩ := p
  obtain ⟨b, bs, g⟩ := q
  simp only [items, List.cons_append, List.append_assoc] at h
  obtain ⟨rfl, h'⟩ := Alternative.items_append_inj (endsAlternative_rest as f.items)
    (endsAlternative_rest bs g.items) (List.cons.inj h).2
  obtain ⟨rfl, h''⟩ := rest_append_inj h'
  obtain rfl := Flags.items_inj h''
  rfl

end Written

/-- A row of items is written in one way only. -/
theorem Written.items_inj {v w : Written} (hp : v.production = w.production)
    (h : v.items = w.items) : v = w := by
  cases v with
  | pattern p =>
    cases w with
    | pattern q => rw [Pattern.items_inj h]
    | flags g => cases hp
  | flags f =>
    cases w with
    | pattern q => cases hp
    | flags g => rw [Flags.items_inj h]

end RegexLiteral
