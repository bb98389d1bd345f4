import RegexLiteral.Proofs.Yields

/-!
# The steps of a parser

Every parser is made of a few steps: it takes a lexeme, takes one as a token, puts in the node at a
cut, and repeats a step until it gives nothing. Each lemma says which items the step uses up, and
what has to be allowed to fail: a line terminator, a cut without a node, and fuel that has run out.
-/

namespace RegexLiteral

theorem Item.kind_ne_eof (i : Item) : i.kind ≠ .eof := by
  cases i with
  | char a => exact Kind.ofChar_ne_eof a
  | _ => simp [kind]

theorem Item.eq_char_of_kind {i : Item} {k : Kind} {a : Char} (h : i.kind = k)
    (hk : k.char? = some a) : i = .char a := by
  cases i with
  | char b => rw [(Kind.ofChar_eq_iff hk).1 h]
  | _ =>
    rw [← h] at hk
    simp [kind, Kind.char?] at hk

theorem Item.exists_char {i : Item} (hcut : i.kind ≠ .interpolation) (hterm : i.kind ≠ .garbage) :
    ∃ a, i = .char a := by
  cases i with
  | char a => exact ⟨a, rfl⟩
  | terminators run => exact absurd rfl hterm
  | node n => exact absurd rfl hcut
  | missing => exact absurd rfl hcut

namespace Cursor

variable {c : Cursor} {i : Item} {rest : List Item} {k : Kind} {a : Char}

theorem exists_item (h : c.kindAt 0 ≠ .eof) : ∃ i rest, c.items = i :: rest := by
  cases hc : c.items with
  | nil => exact absurd (kindAt_nil hc) h
  | cons i rest => exact ⟨i, rest, rfl⟩

theorem kindAt_eq_eof (h : c.kindAt 0 = .eof) : c.items = [] := by
  cases hc : c.items with
  | nil => rfl
  | cons i rest => exact absurd ((kindAt_zero hc).symm.trans h) i.kind_ne_eof

theorem exists_char_of_kindAt (h : c.kindAt 0 = k) (hk : k.char? = some a) :
    ∃ rest, c.items = .char a :: rest := by
  cases hc : c.items with
  | nil =>
    rw [← h, kindAt_nil hc] at hk
    simp [Kind.char?] at hk
  | cons i rest =>
    rw [kindAt_zero hc] at h
    exact ⟨rest, by rw [Item.eq_char_of_kind h hk]⟩

/-- The first lexeme, and what it takes to be a given item. -/
theorem exists_lexeme (hc : c.items = i :: rest) : ∃ start piece ls,
    c.lexemes = ⟨start, piece⟩ :: ls ∧ piece.kind = i.kind
      ∧ (∀ a, i = .char a → piece = .char a ∧ rest = itemsOf ls c.substitutions)
      ∧ (∀ n, i = .node n → ∃ ns, c.substitutions = n :: ns ∧ rest = itemsOf ls ns)
      ∧ (i = .missing → c.substitutions = []) := by
  cases hl : c.lexemes with
  | nil =>
    rw [items_eq_nil_iff.2 hl] at hc
    cases hc
  | cons l ls =>
    obtain ⟨start, piece⟩ := l
    rw [items, hl] at hc
    refine ⟨start, piece, ls, rfl, ?_⟩
    cases piece with
    | char b =>
      obtain ⟨rfl, rfl⟩ := List.cons.inj hc
      exact ⟨rfl, fun a ha => ⟨congrArg _ (Item.char.inj ha), rfl⟩, by simp, by simp⟩
    | terminators run =>
      obtain ⟨rfl, rfl⟩ := List.cons.inj hc
      exact ⟨rfl, by simp, by simp, by simp⟩
    | interpolation =>
      cases hn : c.substitutions with
      | nil =>
        rw [hn] at hc
        obtain ⟨rfl, rfl⟩ := List.cons.inj hc
        exact ⟨rfl, by simp, by simp, fun _ => rfl⟩
      | cons n ns =>
        rw [hn] at hc
        obtain ⟨rfl, rfl⟩ := List.cons.inj hc
        exact ⟨rfl, by simp, fun m hm => ⟨ns, by rw [Item.node.inj hm], rfl⟩, by simp⟩

/-- The two ways in which taking a lexeme fails are among `fails`. -/
structure MayFail (c : Cursor) (fails : Failure → Prop) : Prop where
  terminator : c.kindAt 0 = .garbage → fails (.error ⟨.lineTerminator, c.span, []⟩)
  fuel : c.fuel = some 0 → fails .outOfFuel

@[simp] theorem mayFail_looked {fails : Failure → Prop} :
    c.looked.MayFail fails ↔ c.MayFail fails :=
  ⟨fun h => ⟨h.terminator, h.fuel⟩, fun h => ⟨h.terminator, h.fuel⟩⟩

/-- The items in `is` come first, no line terminator is among them, and there is fuel for them. -/
structure CanRead (c : Cursor) (is rest : List Item) : Prop where
  items : c.items = is ++ rest
  clean : ∀ i ∈ is, i.kind ≠ .garbage
  fuel : ∀ n, c.fuel = some n → is.length ≤ n

variable {c' : Cursor} {u v : List Item}

@[simp] theorem canRead_looked : c.looked.CanRead u rest ↔ c.CanRead u rest :=
  ⟨fun h => ⟨h.items, h.clean, h.fuel⟩, fun h => ⟨h.items, h.clean, h.fuel⟩⟩

theorem CanRead.left (h : c.CanRead (u ++ v) rest) : c.CanRead u (v ++ rest) where
  items := by rw [h.items, List.append_assoc]
  clean i hi := h.clean i (List.mem_append_left _ hi)
  fuel n hn := by
    have := h.fuel n hn
    rw [List.length_append] at this
    omega

theorem CanRead.step (h : c.CanRead (u ++ v) rest) (hr : c.Reaches u c') :
    c'.CanRead v rest where
  items := hr.items_eq (by rw [h.items, List.append_assoc])
  clean i hi := h.clean i (List.mem_append_right _ hi)
  fuel n hn := by
    have := h.fuel (n + u.length) (by rw [hr.fuel, hn]; rfl)
    rw [List.length_append] at this
    omega

end Cursor

/-- A proper failure is among `fails` unless `p` holds. So `p` is what a run needs to succeed. -/
def FailsUnless (p : Prop) (fails : Failure → Prop) : Prop :=
  ∀ e : Failure, e.IsProper → ¬ p → fails e

theorem failsUnless_isProper (p : Prop) : FailsUnless p Failure.IsProper := fun _ he _ => he

theorem failsUnless_false {p : Prop} (h : p) : FailsUnless p fun _ => False :=
  fun _ _ hp => hp h

theorem FailsUnless.mono {p q : Prop} {fails : Failure → Prop} (h : FailsUnless p fails)
    (hpq : p → q) : FailsUnless q fails :=
  fun e he hq => h e he fun hp => hq (hpq hp)

theorem FailsUnless.mayFail {p : Prop} {c : Cursor} {fails : Failure → Prop}
    (h : FailsUnless p fails) (hp : p → ∃ i is rest, c.CanRead (i :: is) rest) :
    c.MayFail fails where
  terminator hk := h _ trivial fun hpp => by
    obtain ⟨i, is, rest, hc⟩ := hp hpp
    exact hc.clean i List.mem_cons_self ((Cursor.kindAt_zero hc.items).symm.trans hk)
  fuel hf := h _ trivial fun hpp => by
    obtain ⟨i, is, rest, hc⟩ := hp hpp
    have := hc.fuel 0 hf
    simp at this

namespace Parser

variable {α : Type} {c : Cursor} {fails : Failure → Prop} {i : Item} {rest : List Item}

/-! ## Taking lexemes -/

theorem spendFuel_yields (hf : c.fuel = some 0 → fails .outOfFuel) :
    Yields spendFuel c (fun _ c' => ∃ fuel, c.fuel = fuel.map (· + 1) ∧ c' = { c with fuel })
      fails := by
  refine get_bind ?_
  split
  · rename_i h
    exact yields_pure ⟨none, by rw [h]; rfl, by rw [← h]⟩
  · rename_i h
    exact hf h
  · rename_i n h
    exact ⟨some n, by rw [h]; rfl, rfl⟩

theorem consume_lexeme {l : Lexeme} {ls : List Lexeme} (hc : c.lexemes = l :: ls)
    (hl : 0 < c.looks) (hm : c.MayFail fails) :
    Yields consume c (fun l' c' => l' = l ∧ l.kind ≠ .garbage ∧ ∃ fuel,
      c.fuel = fuel.map (· + 1) ∧ c' = { c with lexemes := ls, fuel, looks := c.allowance.looks })
      fails := by
  have hk : c.kindAt 0 = l.kind := by rw [Cursor.kindAt, hc]; rfl
  refine get_bind ?_
  rw [hc]
  refine isAt_bind hl ?_
  split
  · rename_i h
    exact yields_fail (hm.terminator (eq_of_beq h))
  · rename_i h
    rw [hk] at h
    refine modify_bind ?_
    refine (spendFuel_yields (c := { c with looks := c.allowance.looks }) hm.fuel).bind ?_
    intro _ _ hpost
    obtain ⟨fuel, hfuel, rfl⟩ := hpost
    exact modify_bind (yields_pure ⟨rfl, fun hk => h (beq_iff_eq.2 hk), fuel, hfuel, rfl⟩)

/-- What is not a cut is taken if it is a character. -/
theorem consume_yields (hc : c.items = i :: rest) (hi : i.kind ≠ .interpolation)
    (hl : 0 < c.looks) (hm : c.MayFail fails) :
    Yields consume c (fun l c' => (∃ a, i = .char a ∧ l.chars = [a])
      ∧ c.lexemes = l :: c'.lexemes ∧ c.Reaches [i] c' ∧ 12 ≤ c'.looks) fails := by
  obtain ⟨start, piece, ls, hls, hk, hchar, -, -⟩ := Cursor.exists_lexeme hc
  refine (consume_lexeme hls hl hm).mono ?_
  intro _ _ hpost
  obtain ⟨rfl, hne, fuel, hfuel, rfl⟩ := hpost
  cases i with
  | char a =>
    obtain ⟨rfl, rfl⟩ := hchar a rfl
    have hclean : ∀ i ∈ [Item.char a], i.kind ≠ .garbage := by
      rintro _ (_ | ⟨_, ⟨⟩⟩)
      exact hne
    refine ⟨⟨a, rfl, rfl⟩, hls, ?_, c.allowance.enough⟩
    exact ⟨⟨[_], hls, rfl⟩, hc, hclean, rfl, hfuel, rfl, rfl, rfl⟩
  | terminators run => exact absurd hk hne
  | node n => exact absurd rfl hi
  | missing => exact absurd rfl hi

theorem sound_eq {r : Except InvalidNode α} {a : α} (hr : r = .ok a) : sound r = pure a := by
  rw [hr]
  rfl

theorem newToken_eq (category : Category) {text : String} (ht : text ≠ "") :
    newToken category text = pure (.plain category text) := by
  refine sound_eq ?_
  simp only [Token.ofParts, Token.check, require, Token.plain, ne_eq, ht, not_false_iff, if_true]
  rfl

theorem newToken_singleton (category : Category) (a : Char) :
    newToken category (String.singleton a) = pure (.ofChar category a) :=
  newToken_eq category (by simp)

theorem token_yields (category : Category) (hc : c.items = i :: rest)
    (hi : i.kind ≠ .interpolation) (hl : 0 < c.looks) (hm : c.MayFail fails) :
    Yields (token category) c (fun t c' => (∃ a, i = .char a ∧ t = .ofChar category a)
      ∧ c.Reaches [i] c' ∧ 12 ≤ c'.looks) fails := by
  refine (consume_yields hc hi hl hm).bind ?_
  intro l c' hpost
  obtain ⟨⟨a, rfl, hp⟩, -, hr, hl'⟩ := hpost
  have ht : l.text = String.singleton a := by
    rw [Lexeme.text, hp]
    rfl
  rw [ht, newToken_singleton]
  exact yields_pure ⟨⟨a, rfl, rfl⟩, hr, hl'⟩

theorem token_char_yields (category : Category) {a : Char} (hc : c.items = .char a :: rest)
    (hl : 0 < c.looks) (hm : c.MayFail fails) :
    Yields (token category) c (fun t c' => t = .ofChar category a ∧ c.Reaches [.char a] c'
      ∧ 12 ≤ c'.looks) fails := by
  refine (token_yields category hc (Kind.ofChar_ne_interpolation a) hl hm).mono ?_
  intro t c' h
  obtain ⟨⟨b, hab, ht⟩, h⟩ := h
  exact ⟨by rw [ht, Item.char.inj hab], h⟩

/-! ## Putting in nodes -/

theorem substitution_yields (hc : c.items = i :: rest) (hi : i.kind = .interpolation)
    (hl : 2 ≤ c.looks) (hm : c.MayFail fails)
    (hn : i = .missing → fails (.error ⟨.noSubtree c.spliced, c.span, []⟩)) :
    Yields substitution c (fun n c' => i = .node n ∧ c.Reaches [i] c' ∧ 12 ≤ c'.looks)
      fails := by
  obtain ⟨start, piece, ls, hls, -, -, hnode, hmissing⟩ := Cursor.exists_lexeme hc
  refine expect_bind (by omega) ((Cursor.kindAt_zero hc).trans hi) (get_bind ?_)
  rw [Cursor.substitutions_looked]
  cases i with
  | char a => exact absurd hi (Kind.ofChar_ne_interpolation a)
  | terminators run => cases hi
  | missing =>
    rw [hmissing rfl]
    exact yields_fail (hn rfl)
  | node n =>
    obtain ⟨ns, hns, rfl⟩ := hnode n rfl
    rw [hns]
    refine (consume_lexeme (c := c.looked) hls ?_ (Cursor.mayFail_looked.2 hm)).bind ?_
    · rw [Cursor.looks_looked]
      omega
    intro _ _ hpost
    obtain ⟨-, -, fuel, hfuel, rfl⟩ := hpost
    have hclean : ∀ i ∈ [Item.node n], i.kind ≠ .garbage := by simp [Item.kind]
    refine modify_bind (yields_pure ⟨rfl, ?_, c.allowance.enough⟩)
    exact ⟨⟨[_], hls, rfl⟩, hc, hclean, hns, hfuel, rfl, rfl, rfl⟩

/-! ## Repeating -/

/-- What a step keeps, a repetition keeps: `I` holds before each step, and `P` of what is still
to come makes `P` of what is taken first and what comes after it. -/
theorem collect_yields {ι : Type} {step : Parser (Option α)} {I : ι → Cursor → Prop}
    {P : ι → Cursor → List α → Cursor → Prop}
    (hstep : ∀ x c, I x c → Yields step c (fun r c' =>
      match r with
      | none => P x c [] c'
      | some a => c'.lexemes.length < c.lexemes.length ∧ ∃ x', I x' c'
        ∧ ∀ as c'', P x' c' as c'' → P x c (a :: as) c'') fails)
    {x : ι} (hc : I x c) : Yields (collect step) c (P x c) fails := by
  have hn : ∀ (n : Nat) (x : ι) (c : Cursor), I x c → c.lexemes.length < n →
      Yields (collectWithin step n) c (P x c) fails := by
    intro n
    induction n with
    | zero => intro x c _ hlt; omega
    | succ n ih =>
      intro x c hinv hlt
      refine (hstep x c hinv).bind ?_
      rintro (_ | a) c' h
      · exact yields_pure h
      · obtain ⟨hshort, x', hinv', hpost⟩ := h
        exact (ih x' c' hinv' (by omega)).bind fun as c'' has => yields_pure (hpost as c'' has)
  exact get_bind (hn _ x c hc (Nat.lt_succ_self _))

end Parser

end RegexLiteral
