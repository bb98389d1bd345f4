import RegexLiteral.Proofs.BracesAhead
import RegexLiteral.Proofs.Reading.Class

/-!
# Reading sigils

Where a sigil between braces has been found ahead, its digits and its braces are known to be there,
so only the values of its numbers can be wrong. No element is read where a sigil begins, and none
ends there.
-/

namespace RegexLiteral

namespace Parser

open Written

variable {c c' : Cursor} {fails : Failure → Prop} {x : List Item}

/-! ## Sigils ahead -/

theorem contains_sigils_iff : KindSet.sigils.contains (c.kindAt 0) = true
    ↔ ∃ a ∈ signs, ∃ rest, c.items = .char a :: rest := by
  have hmem {k : Kind} : KindSet.sigils.contains k = true ↔ ∃ a ∈ signs, k.char? = some a := by
    cases k <;> simp [KindSet.sigils, KindSet.contains, signs, Kind.char?]
  rw [hmem]
  constructor
  · intro hex
    obtain ⟨a, ha, hk⟩ := hex
    exact ⟨a, ha, Cursor.exists_char_of_kindAt rfl hk⟩
  · intro hex
    obtain ⟨a, ha, rest, hc⟩ := hex
    have hchar : ∀ a ∈ signs, (Item.char a).kind.char? = some a := by
      simp [signs, Item.kind, Kind.ofChar, Kind.char?]
    exact ⟨a, ha, by rw [Cursor.kindAt_zero hc]; exact hchar a ha⟩

theorem isAtSigil_yields (hl : 0 < c.looks) : Yields isAtSigil c (fun b c' =>
    c' = c.looked ∧ (b = true ↔ BeginsSigil c.items)) fails := by
  refine isAtAny_bind hl ?_
  split
  · rename_i h
    exact yields_pure ⟨rfl, fun _ => .inl (contains_sigils_iff.1 h), fun _ => rfl⟩
  · rename_i h
    refine get_bind (yields_pure ⟨rfl, ?_⟩)
    rw [Cursor.lexemes_looked, startsBraces_iff c.lexemes c.substitutions]
    exact ⟨.inr, fun hb => hb.resolve_left fun hs => h (contains_sigils_iff.2 hs)⟩

theorem isAtSigil_bind {β : Type} {f : Bool → Parser β} {post : β → Cursor → Prop}
    (hl : 0 < c.looks) (ht : BeginsSigil c.items → Yields (f true) c.looked post fails)
    (hf : ¬ BeginsSigil c.items → Yields (f false) c.looked post fails) :
    Yields (isAtSigil >>= f) c post fails := by
  refine (isAtSigil_yields hl).bind ?_
  rintro (_ | _) _ ⟨rfl, hb⟩
  · exact hf fun h => Bool.false_ne_true (hb.2 h)
  · exact ht (hb.1 rfl)

/-! ## Numbers -/

/-- The digits that are ahead are taken, and no more. -/
theorem digits_yields {ds : List Char} (hc : c.items = ds.map .char ++ x)
    (hd : ∀ d ∈ ds, Text.isDigit d) (hx : NoDigit x) (hl : 10 ≤ c.looks)
    (hf : FailsUnless (∃ rest, c.CanRead (ds.map .char) rest) fails) :
    Yields (collect digit) c (fun ls c' => c.lexemes = ls ++ c'.lexemes
      ∧ ls.flatMap Lexeme.chars = ds ∧ c.Reaches (ds.map .char) c' ∧ 9 ≤ c'.looks) fails := by
  refine collect_yields (I := fun ds c => c.items = ds.map .char ++ x
      ∧ (∀ d ∈ ds, Text.isDigit d) ∧ 10 ≤ c.looks
      ∧ FailsUnless (∃ rest, c.CanRead (ds.map .char) rest) fails)
    (P := fun ds c ls c' => c.lexemes = ls ++ c'.lexemes ∧ ls.flatMap Lexeme.chars = ds
      ∧ c.Reaches (ds.map .char) c' ∧ 9 ≤ c'.looks) ?_ ⟨hc, hd, hl, hf⟩
  intro ds c hpost
  obtain ⟨hc, hd, hl, hf⟩ := hpost
  have hl' : 9 ≤ c.looked.looks := by
    rw [Cursor.looks_looked]
    omega
  refine isAt_bind (by omega) ?_
  cases ds with
  | nil =>
    have hk : ¬ c.kindAt 0 = .digit := by
      intro hk
      cases hx' : x with
      | nil =>
        rw [hx'] at hc
        rw [Cursor.kindAt_nil hc] at hk
        cases hk
      | cons i rest =>
        rw [hx'] at hc
        rw [Cursor.kindAt_zero hc] at hk
        cases i with
        | char a => exact hx a rest hx' (Kind.ofChar_eq_digit_iff.1 hk)
        | _ => cases hk
    rw [if_neg (by simpa using hk)]
    exact yields_pure ⟨rfl, rfl, Cursor.reaches_looked.2 (Cursor.Reaches.refl c), hl'⟩
  | cons d ds =>
    have hk : c.kindAt 0 = .digit := by
      rw [Cursor.kindAt_zero hc]
      exact Kind.ofChar_eq_digit_iff.2 (hd d List.mem_cons_self)
    rw [if_pos (by simpa using hk)]
    have hm : c.MayFail fails := by
      refine hf.mayFail fun h => ?_
      obtain ⟨rest, h⟩ := h
      exact ⟨_, _, rest, h⟩
    refine Yields.map ((consume_yields (c := c.looked) hc (Kind.ofChar_ne_interpolation d)
      (by omega) (Cursor.mayFail_looked.2 hm)).mono ?_)
    intro l c' hpost
    obtain ⟨⟨a, hda, hl⟩, hlex, hr, hlooks⟩ := hpost
    obtain rfl := Item.char.inj hda
    rw [Cursor.looked_reaches] at hr
    refine ⟨hr.length_lt (by simp), ds, ⟨hr.items_eq hc, ?_, by omega, ?_⟩, ?_⟩
    · exact fun e he => hd e (List.mem_cons_of_mem _ he)
    · refine hf.mono fun h => ?_
      obtain ⟨rest, h⟩ := h
      exact ⟨rest, h.step (u := [_]) hr⟩
    · intro ls c'' hpost
      obtain ⟨hlex', hchars, hr', hlooks'⟩ := hpost
      refine ⟨?_, ?_, hr.trans hr', hlooks'⟩
      · rw [List.cons_append, ← hlex']
        exact hlex
      · rw [List.flatMap_cons, hl, hchars, List.singleton_append]

theorem range_eq {start stop : Nat} (h : start ≤ stop) : range start stop = pure ⟨start, stop⟩ := by
  rw [range, if_pos h]

theorem slice_bind {β : Type} {span : Span} {cs : List Char} {f : String → Parser β}
    {post : β → Cursor → Prop} (hs : span.slice? c.source = some cs)
    (h : Yields (f (String.ofList cs)) c post fails) : Yields (slice span >>= f) c post fails := by
  have : Yields (slice span) c (fun text c' => text = String.ofList cs ∧ c' = c) fails := by
    refine get_bind ?_
    rw [hs]
    exact yields_pure ⟨rfl, rfl⟩
  refine this.bind fun t c' htc => ?_
  rw [htc.1, htc.2]
  exact h

theorem number_yields {ds : List Char} (hc : c.items = ds.map .char ++ x) (hne : ds ≠ [])
    (hd : ∀ d ∈ ds, Text.isDigit d) (hx : NoDigit x) (hp : c.Placed) (hl : 10 ≤ c.looks)
    (hf : FailsUnless (∃ (n : Number) (rest : _), n.digits = ds ∧ c.CanRead n.items rest) fails) :
    Yields number c (fun r c' => ∃ n : Number, n.digits = ds ∧ r = (n.token, n.value)
      ∧ c.Reaches n.items c' ∧ 9 ≤ c'.looks) fails := by
  have hf' : FailsUnless (∃ rest, c.CanRead (ds.map .char) rest) fails := by
    refine hf.mono ?_
    intro h
    obtain ⟨n, rest, rfl, h⟩ := h
    exact ⟨rest, h⟩
  refine get_bind ((digits_yields hc hd hx hl hf').bind ?_)
  intro ls c' hpost
  obtain ⟨hlex, hchars, hr, hl'⟩ := hpost
  obtain ⟨hle, hslice⟩ := hp.slice?_eq hlex
  rw [range_eq hle, pure_bind]
  rw [hchars, ← hr.source] at hslice
  refine slice_bind hslice ?_
  split
  · rename_i hn
    refine yields_failAt (hf _ trivial ?_)
    intro hex
    obtain ⟨n, rest, rfl, -⟩ := hex
    exact absurd (n.reads.symm.trans hn) (by simp)
  · rename_i v hv
    rw [newToken_eq .character (by simpa using hne), pure_bind]
    exact yields_pure ⟨⟨ds, v, hv⟩, rfl, rfl, hr, hl'⟩

end Parser

/-! ## Braces -/

/-- The digits that stand behind the comma are those of the second number. -/
theorem Written.Upper.exists_upTo {x y : List Item} {u : Upper} {e : Char} {es : List Char}
    (he : ∀ d ∈ e :: es, Text.isDigit d)
    (h : u.items ++ .char '\x7d' :: x
      = .char ',' :: ((e :: es).map .char ++ .char '\x7d' :: y)) :
    ∃ m, u = .upTo m ∧ m.digits = e :: es := by
  cases u with
  | alone => simp [items] at h
  | unbounded =>
    have hclose : Item.char '\x7d' = .char e := (List.cons.inj (List.cons.inj h).2).1
    have hdigit := he e List.mem_cons_self
    rw [← Item.char.inj hclose] at hdigit
    exact absurd hdigit (by decide)
  | upTo m =>
    obtain ⟨hm, -⟩ := digits_append_inj Sigil.noDigit_close Sigil.noDigit_close
      m.isDigit_of_mem he (List.cons.inj h).2
    exact ⟨m, rfl, hm⟩

namespace Parser

open Written

variable {c c' : Cursor} {fails : Failure → Prop} {x : List Item}

/-- What has to stand behind the first number for a sigil to be read to its end. -/
def UpperAhead (n : Number) (c : Cursor) : Prop :=
  ∃ (u : Upper) (rest : List Item), u.Ordered n ∧ c.CanRead (u.items ++ [.char '\x7d']) rest

/-- What stands up to the closing brace is what the derivation has there. -/
theorem UpperAhead.ordered {n : Number} {v : Upper} (h : UpperAhead n c)
    (hc : c.items = v.items ++ .char '\x7d' :: x) :
    v.Ordered n ∧ ∃ rest, c.CanRead (v.items ++ [.char '\x7d']) rest := by
  obtain ⟨u, rest, hu, h⟩ := h
  have hi := h.items.symm.trans hc
  rw [List.append_assoc] at hi
  obtain ⟨rfl, -⟩ := Upper.items_append_inj hi
  exact ⟨hu, rest, h⟩

theorem upperBound_yields (n : Number) (hx : ClosesBraces c.items) (hp : c.Placed)
    (hl : 9 ≤ c.looks) (hf : FailsUnless (UpperAhead n c) fails) :
    Yields (upperBound n.value) c (fun r c' => ∃ u : Upper,
      r = ((u.parts n).1, (u.parts n).2.1, (u.parts n).2.2) ∧ c.Reaches u.items c'
      ∧ 8 ≤ c'.looks ∧ c'.kindAt 0 = .braceClose
      ∧ FailsUnless (u.Ordered n ∧ ∃ rest, c'.CanRead [.char '\x7d'] rest) fails) fails := by
  refine isAt_bind (by omega) ?_
  have hl' : 8 ≤ c.looked.looks := by
    rw [Cursor.looks_looked]
    omega
  rcases hx with ⟨y, hc⟩ | ⟨es, y, he, hc⟩
  · have hk : c.kindAt 0 = .braceClose := Cursor.kindAt_zero hc
    rw [if_neg (by rw [hk]; decide)]
    refine yields_pure ⟨.alone, rfl, Cursor.reaches_looked.2 (Cursor.Reaches.refl c), hl', hk, ?_⟩
    refine hf.mono fun h => ?_
    obtain ⟨hu, rest, h⟩ := h.ordered (v := .alone) hc
    exact ⟨hu, rest, Cursor.canRead_looked.2 h⟩
  · have hk : c.kindAt 0 = .comma := Cursor.kindAt_zero hc
    rw [if_pos (by rw [hk]; decide)]
    have hm : c.MayFail fails := by
      refine hf.mayFail fun h => ?_
      obtain ⟨u, rest, hu, h⟩ := h
      cases u <;> exact ⟨_, _, rest, h⟩
    refine (token_char_yields (c := c.looked) .punctuator hc (by omega)
      (Cursor.mayFail_looked.2 hm)).bind ?_
    intro _ c₁ hpost
    obtain ⟨rfl, hr₁, hl₁⟩ := hpost
    rw [Cursor.looked_reaches] at hr₁
    have hc₁ : c₁.items = es.map .char ++ .char '\x7d' :: y := hr₁.items_eq hc
    refine isAt_bind (by omega) ?_
    cases es with
    | nil =>
      have hk₁ : c₁.kindAt 0 = .braceClose := Cursor.kindAt_zero hc₁
      rw [if_neg (by rw [hk₁]; decide)]
      refine yields_pure ⟨.unbounded, rfl, Cursor.reaches_looked.2 hr₁, ?_, hk₁, ?_⟩
      · rw [Cursor.looks_looked]
        omega
      refine hf.mono fun h => ?_
      obtain ⟨hu, rest, h⟩ := h.ordered (v := .unbounded) hc
      exact ⟨hu, rest, Cursor.canRead_looked.2 (h.step hr₁)⟩
    | cons e es =>
      have hk₁ : c₁.kindAt 0 = .digit := by
        rw [Cursor.kindAt_zero hc₁]
        exact Kind.ofChar_eq_digit_iff.2 (he e List.mem_cons_self)
      rw [if_pos (by rw [hk₁]; decide)]
      refine (number_yields (c := c₁.looked) hc₁ (by simp) he Sigil.noDigit_close
        (hp.reaches hr₁).1 ?_ ?_).bind ?_
      · rw [Cursor.looks_looked]
        omega
      · refine hf.mono fun h => ?_
        obtain ⟨u, rest, _, h⟩ := h
        have hi := h.items.symm.trans hc
        rw [List.append_assoc] at hi
        obtain ⟨m, rfl, hm⟩ := Upper.exists_upTo he hi
        have h₁ : c₁.CanRead (m.items ++ [.char '\x7d']) rest := h.step (u := [_]) hr₁
        exact ⟨m, _, hm, Cursor.canRead_looked.2 h₁.left⟩
      · intro _ c₂ hpost
        obtain ⟨m, hm, rfl, hr₂, hl₂⟩ := hpost
        rw [Cursor.looked_reaches] at hr₂
        have hr := hr₁.trans hr₂
        have hc' : c.items = (Upper.upTo m).items ++ .char '\x7d' :: y := by
          rw [hc, Upper.items, Number.items, hm]
          rfl
        refine yields_pure ⟨.upTo m, rfl, hr, by omega,
          Cursor.kindAt_zero (hr.items_eq hc'), ?_⟩
        refine hf.mono fun h => ?_
        obtain ⟨hu, rest, h⟩ := h.ordered hc'
        exact ⟨hu, rest, h.step hr⟩

theorem checkNumber_token (n : Number) : Braces.checkNumber n.token = .ok () := by
  have h : Text.readNumber? n.token.text = some n.value := n.reads
  simp only [Braces.checkNumber, h, require, Option.isSome_some, if_true]

theorem braces_eq (n : Number) (u : Upper) :
    Braces.ofParts ((Token.ofChar .punctuator '\x7b').opening '\x7d' .quantifier) n.token
        (u.parts n).1 (u.parts n).2.1 (Token.ofChar .punctuator '\x7d').balancing
      = .ok ⟨Sigil.openBrace, n.token, (u.parts n).1, (u.parts n).2.1, Sigil.closeBrace⟩ := by
  simp only [Braces.ofParts, Braces.check, checkNumber_token]
  cases u with
  | alone => rfl
  | unbounded => rfl
  | upTo m =>
    simp only [Upper.parts, checkNumber_token]
    rfl

theorem braces_yields (hb : OpensBraces c.items) (hp : c.Placed) (hl : 0 < c.looks)
    (hf : FailsUnless (∃ (s : Written.Sigil) (rest : _), c.CanRead s.items rest) fails) :
    Yields braces c (fun r c' => ∃ s : Written.Sigil, r = (s.tree, s.min, s.max)
      ∧ c.Reaches s.items c' ∧ 12 ≤ c'.looks) fails := by
  obtain ⟨ds, x, hne, hd, hx, hc⟩ := opensBraces_iff.1 hb
  -- A sigil that can be read to its end has the digits that are ahead.
  have hf : FailsUnless (∃ (n : Number) (u : Upper) (rest : _), n.digits = ds ∧ u.Ordered n
      ∧ c.CanRead (.char '\x7b' :: (n.items ++ (u.items ++ [.char '\x7d']))) rest) fails := by
    refine hf.mono fun h => ?_
    obtain ⟨s, rest, h⟩ := h
    obtain ⟨n, u, hu, rfl⟩ := Sigil.exists_upper (h.items.symm.trans hc)
    rw [Upper.items_sigil] at h
    have hi : (n.items ++ (u.items ++ [.char '\x7d'])) ++ rest = ds.map .char ++ x :=
      (List.cons.inj (h.items.symm.trans hc)).2
    rw [List.append_assoc, List.append_assoc] at hi
    obtain ⟨hn, -⟩ := digits_append_inj (u.noDigit rest) hx.noDigit n.isDigit_of_mem hd hi
    exact ⟨n, u, rest, hn, hu, h⟩
  have hm : c.MayFail fails := by
    refine hf.mayFail fun h => ?_
    obtain ⟨_, _, rest, _, _, h⟩ := h
    exact ⟨_, _, rest, h⟩
  refine get_bind ((token_char_yields .punctuator hc hl hm).bind ?_)
  intro _ c₁ hpost
  obtain ⟨rfl, hr₁, hl₁⟩ := hpost
  have hc₁ : c₁.items = ds.map .char ++ x := hr₁.items_eq hc
  refine (number_yields hc₁ hne hd hx.noDigit (hp.reaches hr₁).1 (by omega)
    (hf.mono ?_)).bind ?_
  · intro h
    obtain ⟨n, u, rest, hn, -, h⟩ := h
    exact ⟨n, _, hn, (h.step (u := [_]) hr₁).left⟩
  intro _ c₂ hpost
  obtain ⟨n, hn, rfl, hr₂, hl₂⟩ := hpost
  have hr₁₂ := hr₁.trans hr₂
  have hc₂ : c₂.items = x := by
    refine hr₂.items_eq ?_
    rw [hc₁, Number.items, hn]
  have hf₂ : FailsUnless (UpperAhead n c₂) fails := by
    refine hf.mono fun h => ?_
    obtain ⟨n', u, rest, hn', hu, h⟩ := h
    obtain rfl := Number.ext_digits (hn'.trans hn.symm)
    exact ⟨u, rest, hu, h.step (u := .char '\x7b' :: n'.items) hr₁₂⟩
  refine (upperBound_yields n (by rw [hc₂]; exact hx) (hp.reaches hr₁₂).1 hl₂ hf₂).bind ?_
  intro _ c₃ hpost
  obtain ⟨u, rfl, hr₃, hl₃, hk₃, hf₃⟩ := hpost
  obtain ⟨y, hc₃⟩ := Cursor.exists_char_of_kindAt hk₃ rfl
  have hm₃ : c₃.MayFail fails := by
    refine hf₃.mayFail fun h => ?_
    obtain ⟨_, rest, h⟩ := h
    exact ⟨_, _, rest, h⟩
  refine get_bind ((token_char_yields .punctuator hc₃ (by omega) hm₃).bind ?_)
  intro _ c₄ hpost
  obtain ⟨rfl, hr₄, hl₄⟩ := hpost
  have hr := (hr₁₂.trans hr₃).trans hr₄
  split
  · rename_i hu
    change u.Ordered n at hu
    rw [sound_eq (braces_eq n u), pure_bind]
    refine yields_pure ⟨u.sigil n hu, ?_, ?_, hl₄⟩
    · rw [Upper.tree_sigil, Upper.min_sigil, Upper.max_sigil]
    · rw [Upper.items_sigil]
      simpa using hr
  · rename_i hu
    have hle : c.span.start ≤ c₃.span.stop :=
      Nat.le_trans (hp.start_le (hr₁₂.trans hr₃)) c₃.span_start_le_stop
    rw [range_eq hle, pure_bind]
    exact yields_failAt (hf₃ _ trivial fun h => hu h.1)

theorem signBounds_yields (hl : 0 < c.looks) : Yields signBounds c (fun r c' => c' = c.looked
    ∧ (r = none → ¬ ∃ a ∈ signs, ∃ rest, c.items = .char a :: rest)
    ∧ ∀ min max, r = some (min, max) → ∃ (s : Written.Sigil) (a : Char) (rest : List Item),
      c.items = .char a :: rest ∧ s.items = [.char a] ∧ s.tree = .token (.ofChar .keyword a)
        ∧ s.min = min ∧ s.max = max) fails := by
  refine isAtAny_bind hl ?_
  split
  · rename_i hk
    obtain ⟨a, ha, rest, hc⟩ := contains_sigils_iff.1 hk
    have htext : c.looked.text = String.singleton a := by
      rw [Cursor.text, Cursor.chars, Cursor.charsAt_eq, Cursor.items_looked, hc]
      rfl
    refine get_bind (yields_pure ⟨rfl, ?_, ?_⟩)
    · rw [htext]
      intro h
      have hsome : ∀ a ∈ signs, Sigil.tokenBounds? (String.singleton a) ≠ none := by
        simp [signs, Sigil.tokenBounds?]
      exact absurd h (hsome a ha)
    · rw [htext]
      intro min max h
      simp only [signs, List.mem_cons, List.not_mem_nil, or_false] at ha
      rcases ha with rfl | rfl | rfl
      · cases h
        exact ⟨.plus, '+', rest, hc, rfl, rfl, rfl, rfl⟩
      · cases h
        exact ⟨.star, '*', rest, hc, rfl, rfl, rfl, rfl⟩
      · cases h
        exact ⟨.question, '?', rest, hc, rfl, rfl, rfl, rfl⟩
  · rename_i hk
    exact yields_pure ⟨rfl, fun _ h => hk (contains_sigils_iff.2 h), by simp⟩

/-- A sigil that has been found ahead is read, unless its numbers are wrong. -/
theorem sigil_yields (hb : BeginsSigil c.items) (hp : c.Placed) (hl : 3 ≤ c.looks)
    (hf : FailsUnless (∃ (s : Written.Sigil) (rest : _), c.CanRead s.items rest) fails) :
    Yields sigil c (fun r c' => ∃ s : Written.Sigil, r = (s.tree, s.min, s.max)
      ∧ c.Reaches s.items c' ∧ 12 ≤ c'.looks) fails := by
  have hf' : FailsUnless (∃ (s : Written.Sigil) (rest : _), c.looked.CanRead s.items rest)
      fails := by
    refine hf.mono fun h => ?_
    obtain ⟨s, rest, h⟩ := h
    exact ⟨s, rest, Cursor.canRead_looked.2 h⟩
  have hl' : 2 ≤ c.looked.looks := by
    rw [Cursor.looks_looked]
    omega
  refine isAt_bind (by omega) ?_
  split
  · rename_i hk
    have hob : OpensBraces c.items := by
      refine hb.resolve_left ?_
      intro hex
      obtain ⟨a, ha, rest, hc⟩ := hex
      have hne : ∀ a ∈ signs, (Item.char a).kind ≠ .braceOpen := by
        simp [signs, Item.kind, Kind.ofChar]
      exact hne a ha ((Cursor.kindAt_zero hc).symm.trans (eq_of_beq hk))
    refine (braces_yields (c := c.looked) hob hp (by omega) hf').mono ?_
    intro r c' h
    obtain ⟨s, hr, hreach, h⟩ := h
    exact ⟨s, hr, Cursor.looked_reaches.1 hreach, h⟩
  · rename_i hk
    have hsign : ∃ a ∈ signs, ∃ rest, c.items = .char a :: rest := by
      refine hb.resolve_right fun hob => hk ?_
      obtain ⟨rest, hc⟩ := hob.head
      exact beq_iff_eq.2 (Cursor.kindAt_zero hc)
    refine (signBounds_yields (by omega)).bind ?_
    rintro (_ | ⟨min, max⟩) _ ⟨rfl, hnone, hsome⟩
    · exact absurd hsign (hnone rfl)
    obtain ⟨s, a, rest, hc, hs, htree, rfl, rfl⟩ := hsome min max rfl
    have hm : c.looked.looked.MayFail fails := by
      rw [Cursor.mayFail_looked, Cursor.mayFail_looked]
      refine hf.mayFail fun h => ?_
      obtain ⟨t, rest, h⟩ := h
      cases t <;> exact ⟨_, _, rest, h⟩
    refine (token_char_yields (c := c.looked.looked) .keyword hc ?_ hm).bind ?_
    · rw [Cursor.looks_looked]
      omega
    intro _ c' hpost
    obtain ⟨rfl, hr, hlooks⟩ := hpost
    rw [Cursor.looked_reaches, Cursor.looked_reaches] at hr
    exact yields_pure ⟨s, by rw [htree], by rw [hs]; exact hr, hlooks⟩

end Parser

end RegexLiteral
