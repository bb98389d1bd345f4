import RegexLiteral.Proofs.Decimal
import RegexLiteral.Proofs.Derivation
import RegexLiteral.Proofs.Failing.Stop

/-!
# Numbers between braces

The numbers of a sigil between braces are read three times: the scan ahead finds the braces, the
parser takes them, and whoever is given the tokens reads the bounds from their texts. The three are
measured here against one reading of the text, which is said without a parser (`BraceText`): its
numbers are what their digits are worth, and it is at fault where a number is too large or where
the numbers are out of order (`BraceText.fault?`).

The parser is followed from every place in a template (`Cursor.PartOf`), so from every place that a
run comes to.
-/

namespace RegexLiteral

open Text Written

/-! ## The text of the braces -/

/-- The digits between braces: those of the first number, and those behind the comma if there is
one. None need to stand behind the comma. -/
structure BraceText where
  low : List Char
  high : Option (List Char)
  low_ne_nil : low ≠ []
  isDigit_low : ∀ d ∈ low, isDigit d
  isDigit_high : ∀ ds ∈ high, ∀ d ∈ ds, isDigit d

/-- The error that a row of digits, which starts at byte `start`, is too large a number. -/
def tooLarge (start : Nat) (ds : List Char) : ParseError :=
  ⟨.numberTooLarge (String.ofList ds), ⟨start, start + ds.length⟩, []⟩

namespace BraceText

variable (b : BraceText)

/-- What stands between the first number and the closing brace. -/
def upper : List Char :=
  match b.high with
  | none => []
  | some ds => ',' :: ds

def chars : List Char := '\x7b' :: (b.low ++ (b.upper ++ ['\x7d']))

def min : Nat := placeValue b.low

/-- A number alone is both bounds, and a comma with nothing behind it is no upper bound. -/
def max : Bound :=
  match b.high with
  | none => .finite (placeValue b.low)
  | some [] => .infinite
  | some ds => .finite (placeValue ds)

def separator : Option Token := b.high.map fun _ => .ofChar .punctuator ','

def maxToken : Option Token :=
  match b.high with
  | none | some [] => none
  | some ds => some (.plain .character (String.ofList ds))

/-- The tokens that spell the text, every row of digits being one. -/
def tree : Braces :=
  ⟨(Token.ofChar .punctuator '\x7b').opening '\x7d' .quantifier,
    .plain .character (String.ofList b.low), b.separator, b.maxToken,
    (Token.ofChar .punctuator '\x7d').balancing⟩

/-- What is wrong with the numbers if the text starts at byte `start`. The first that is too large
counts, and their order counts if none is. -/
def fault? (start : Nat) : Option ParseError :=
  if 2 ^ 32 ≤ placeValue b.low then some (tooLarge (start + 1) b.low)
  else
    match b.high with
    | none | some [] => none
    | some ds =>
      if 2 ^ 32 ≤ placeValue ds then some (tooLarge (start + 1 + b.low.length + 1) ds)
      else if placeValue ds < placeValue b.low then
        some ⟨.numbersOutOfOrder (placeValue b.low) (.finite (placeValue ds)),
          ⟨start, start + b.chars.length⟩, []⟩
      else none

/-- The texts are the forms that the scan looks for. -/
theorem braceForm_iff {cs : List Char} : BraceForm cs ↔ ∃ b : BraceText, cs = b.chars := by
  constructor
  · intro h
    cases h with
    | @exactly ds hne hd => exact ⟨⟨ds, none, hne, hd, by simp⟩, by simp [chars, upper]⟩
    | @atLeast ds hne hd => exact ⟨⟨ds, some [], hne, hd, by simp⟩, by simp [chars, upper]⟩
    | @between ds es hne hd _ he =>
      exact ⟨⟨ds, some es, hne, hd, by simpa using he⟩, by simp [chars, upper]⟩
  · intro hex
    obtain ⟨⟨ds, high, hne, hd, he⟩, rfl⟩ := hex
    rcases high with _ | _ | ⟨e, es⟩
    · simpa [chars, upper] using BraceForm.exactly hne hd
    · simpa [chars, upper] using BraceForm.atLeast hne hd
    · simpa [chars, upper] using BraceForm.between hne hd (List.cons_ne_nil e es) (he _ rfl)

theorem noDigit_upper (rest : List Item) :
    NoDigit (b.upper.map .char ++ .char '\x7d' :: rest) := by
  unfold upper
  split
  · exact Sigil.noDigit_close
  · exact Sigil.noDigit_comma

theorem byteSize_chars : byteSize b.chars = b.chars.length := by
  have hupper : byteSize b.upper = b.upper.length := by
    unfold upper
    split
    · rfl
    · rename_i ds hb
      rw [byteSize_cons, byteSize_of_isDigit (b.isDigit_high ds hb), List.length_cons, Nat.add_comm]
      rfl
  simp only [chars, byteSize_cons, byteSize_append, byteSize_of_isDigit b.isDigit_low, hupper,
    List.length_cons, List.length_append, Nat.add_comm]
  rfl

theorem text_tree : (Sigil.braces b.tree).text = String.ofList b.chars := by
  obtain ⟨ds, high, -, -, -⟩ := b
  rcases high with _ | _ | ⟨e, es⟩ <;>
    simp [Sigil.text, Sigil.tokens, Braces.tokens, tree, separator, maxToken, chars, upper,
      joinText, Token.plain, Token.ofChar]

/-- The numbers are small enough for their tokens to be read again. -/
structure IsSmall : Prop where
  low : placeValue b.low < numberLimit
  high : ∀ ds ∈ b.high, placeValue ds < numberLimit

variable {b}

theorem IsSmall.bounds?_tree (h : b.IsSmall) : b.tree.bounds? = some (b.min, b.max) := by
  have hlow := readNumber?_ofList b.low_ne_nil b.isDigit_low
  rw [if_pos h.low] at hlow
  rcases hb : b.high with _ | _ | ⟨e, es⟩
  · simp [Braces.bounds?, tree, separator, maxToken, Token.plain, hb, hlow, min, max]
  · simp [Braces.bounds?, tree, separator, maxToken, Token.plain, hb, hlow, min, max]
  · have hhigh := readNumber?_ofList (List.cons_ne_nil e es) (b.isDigit_high _ hb)
    rw [if_pos (h.high _ hb)] at hhigh
    simp [Braces.bounds?, tree, separator, maxToken, Token.plain, hb, hlow, hhigh, min, max,
      -String.ofList_cons]

theorem IsSmall.ofParts_eq (h : b.IsSmall) :
    Braces.ofParts ((Token.ofChar .punctuator '\x7b').opening '\x7d' .quantifier)
      (.plain .character (String.ofList b.low)) b.separator b.maxToken
      (Token.ofChar .punctuator '\x7d').balancing = .ok b.tree := by
  have hcheck {ds : List Char} (hne : ds ≠ []) (hd : ∀ d ∈ ds, isDigit d)
      (hlt : placeValue ds < numberLimit) :
      Braces.checkNumber (.plain .character (String.ofList ds)) = .ok () := by
    simp only [Braces.checkNumber, Token.plain, readNumber?_ofList hne hd, if_pos hlt, require,
      Option.isSome_some, if_true]
  have hlow := hcheck b.low_ne_nil b.isDigit_low h.low
  rcases hb : b.high with _ | _ | ⟨e, es⟩
  · simp only [Braces.ofParts, Braces.check, tree, separator, maxToken, hb, hlow]
    rfl
  · simp only [Braces.ofParts, Braces.check, tree, separator, maxToken, hb, hlow]
    rfl
  · have hhigh := hcheck (List.cons_ne_nil e es) (b.isDigit_high _ hb) (h.high _ hb)
    simp only [Braces.ofParts, Braces.check, tree, separator, maxToken, hb, hlow, hhigh]
    rfl

theorem kind_of_fault {start : Nat} {e : ParseError} (h : b.fault? start = some e) :
    e.kind = .quantifier := by
  unfold fault? at h
  repeat' split at h
  all_goals cases h
  all_goals rfl

theorem fault?_of_low (h : numberLimit ≤ placeValue b.low) (start : Nat) :
    b.fault? start = some (tooLarge (start + 1) b.low) :=
  if_pos h

theorem fault?_of_high (hlow : placeValue b.low < numberLimit) {ds : List Char}
    (hb : b.high = some ds) (h : numberLimit ≤ placeValue ds) (start : Nat) :
    b.fault? start = some (tooLarge (start + 1 + b.low.length + 1) ds) := by
  have hlow : ¬ 2 ^ 32 ≤ placeValue b.low := Nat.not_le.2 hlow
  have hhigh : 2 ^ 32 ≤ placeValue ds := h
  rw [fault?, if_neg hlow, hb]
  cases ds with
  | nil => exact absurd h (by decide)
  | cons d ds => exact if_pos hhigh

theorem IsSmall.fault?_eq (h : b.IsSmall) (start : Nat) : b.fault? start
    = if b.max.allows b.min then none
      else some ⟨.numbersOutOfOrder b.min b.max, ⟨start, start + b.chars.length⟩, []⟩ := by
  have hlow : ¬ 2 ^ 32 ≤ placeValue b.low := Nat.not_le.2 h.low
  rw [fault?, if_neg hlow]
  rcases hb : b.high with _ | _ | ⟨e, es⟩
  · simp [max, min, hb, Bound.allows]
  · simp [max, hb, Bound.allows]
  · have hhigh : ¬ 2 ^ 32 ≤ placeValue (e :: es) := Nat.not_le.2 (h.high _ hb)
    simp only [if_neg hhigh, max, min, hb, Bound.allows]
    by_cases hle : placeValue b.low ≤ placeValue (e :: es)
    · simp [hle, Nat.not_lt.2 hle]
    · simp [hle, Nat.lt_of_not_le hle]

end BraceText

/-! ## Places in a template -/

/-- What is left to be read is the end of the template, with the last of its nodes. -/
structure Cursor.PartOf (c : Cursor) (t : Template) : Prop where
  source : c.source = t.source.toList
  lexemes : c.lexemes <:+ t.lexemes
  substitutions : c.substitutions <:+ t.substitutions

namespace Cursor

variable {t : Template} {c c' : Cursor} {used : List Item}

theorem partOf_cursor (t : Template) (fuel : Option Nat) : (t.cursor fuel).PartOf t :=
  ⟨rfl, List.suffix_rfl, List.suffix_rfl⟩

/-- Whatever is read of a template, the rest is a part of it. -/
theorem PartOf.reaches (h : c.PartOf t) (hr : c.Reaches used c') : c'.PartOf t where
  source := hr.source.trans h.source
  lexemes := by
    obtain ⟨taken, hl, -⟩ := hr.lexemes
    exact List.IsSuffix.trans ⟨taken, hl.symm⟩ h.lexemes
  substitutions := List.IsSuffix.trans ⟨_, hr.substitutions.symm⟩ h.substitutions

theorem PartOf.placed (h : c.PartOf t) : c.Placed := by
  obtain ⟨read, hread⟩ := h.lexemes
  have htiles := t.tiles_lexemes
  rw [← hread] at htiles
  refine ⟨read.flatMap Lexeme.chars, ?_, ?_⟩
  · rw [h.source, ← t.flatMap_chars_lexemes, ← hread, List.flatMap_append]
  · simpa using ((Lexeme.tiles_append _ _ _).1 htiles).2

/-- Characters that stand ahead can be read if the fuel lasts: none of the braces is a line
terminator. -/
theorem canRead_braces {b : BraceText} {rest : List Item} (hc : c.items = b.chars.map .char ++ rest)
    (hfuel : ∀ n, c.fuel = some n → b.chars.length ≤ n) :
    c.CanRead (b.chars.map .char) rest where
  items := hc
  clean i hi := by
    obtain ⟨a, ha, rfl⟩ := List.mem_map.1 hi
    rcases (BraceText.braceForm_iff.2 ⟨b, rfl⟩).mem ha with ha | ha
    · simp only [List.mem_cons, List.not_mem_nil, or_false] at ha
      rcases ha with rfl | rfl | rfl <;> decide
    · rw [Item.kind, Kind.ofChar_eq_digit_iff.2 ha]
      decide
  fuel n hn := by
    rw [List.length_map]
    exact hfuel n hn

/-- Taking the next lexeme does not fail where it can be read. -/
theorem CanRead.mayFail {i : Item} {is rest : List Item} (h : c.CanRead (i :: is) rest)
    (fails : Failure → Prop) : c.MayFail fails where
  terminator hk := absurd ((kindAt_zero h.items).symm.trans hk) (h.clean i List.mem_cons_self)
  fuel hf := by
    have := h.fuel 0 hf
    simp at this

end Cursor

namespace Parser

variable {c c' : Cursor} {fails : Failure → Prop} {x : List Item}

/-! ## Reading the braces -/

/-- A number that is ahead is read, or it is too large. -/
theorem number_exact {ds : List Char} (hc : c.CanRead (ds.map .char) x) (hne : ds ≠ [])
    (hd : ∀ d ∈ ds, isDigit d) (hx : NoDigit x) (hp : c.Placed) (hl : 10 ≤ c.looks)
    (hlarge : numberLimit ≤ placeValue ds → fails (.error (tooLarge c.span.start ds))) :
    Yields number c (fun r c' => r = (.plain .character (String.ofList ds), placeValue ds)
      ∧ placeValue ds < numberLimit ∧ c.Reaches (ds.map .char) c' ∧ 9 ≤ c'.looks) fails := by
  refine get_bind ((digits_yields hc.items hd hx hl fun _ _ h => absurd ⟨x, hc⟩ h).bind ?_)
  intro ls c' hpost
  obtain ⟨hlex, hchars, hr, hl'⟩ := hpost
  have hstop : Lexeme.stopOf c.span.start ls = c.span.start + ds.length := by
    rw [hp.stopOf_eq hlex, hchars, byteSize_of_isDigit hd]
  obtain ⟨hle, hslice⟩ := hp.slice?_eq hlex
  rw [range_eq hle, pure_bind]
  rw [hchars, ← hr.source] at hslice
  refine slice_bind hslice ?_
  rw [readNumber?_ofList hne hd]
  by_cases hlt : placeValue ds < numberLimit
  · rw [if_pos hlt, newToken_eq .character (by simpa using hne)]
    exact yields_pure ⟨rfl, hlt, hr, hl'⟩
  · rw [if_neg hlt, hstop]
    exact yields_failAt (hlarge (Nat.le_of_not_lt hlt))

/-- What stands behind the first number is read, or the second number is too large. -/
theorem upperBound_exact (b : BraceText)
    (hc : c.CanRead (b.upper.map .char ++ [.char '\x7d']) x) (hp : c.Placed) (hl : 9 ≤ c.looks)
    (hlarge : ∀ ds ∈ b.high, numberLimit ≤ placeValue ds →
      fails (.error (tooLarge (c.span.start + 1) ds))) :
    Yields (upperBound b.min) c (fun r c' => r = (b.separator, b.maxToken, b.max)
      ∧ (∀ ds ∈ b.high, placeValue ds < numberLimit) ∧ c.Reaches (b.upper.map .char) c'
      ∧ 8 ≤ c'.looks) fails := by
  refine isAt_bind (by omega) ?_
  have hl' : 8 ≤ c.looked.looks := by
    rw [Cursor.looks_looked]
    omega
  rcases hb : b.high with _ | ds
  · have hk : c.kindAt 0 = .braceClose := by
      have hclose : c.items = .char '\x7d' :: x := by
        rw [hc.items, BraceText.upper, hb]
        rfl
      exact Cursor.kindAt_zero hclose
    rw [if_neg (by rw [hk]; decide)]
    refine yields_pure ⟨?_, by simp, ?_, hl'⟩
    · simp [BraceText.separator, BraceText.maxToken, BraceText.max, BraceText.min, hb]
    · rw [BraceText.upper, hb]
      exact Cursor.reaches_looked.2 (Cursor.Reaches.refl c)
  rw [hb] at hlarge
  have hupper : b.upper.map Item.char = .char ',' :: ds.map .char := by
    rw [BraceText.upper, hb]
    rfl
  rw [hupper] at hc ⊢
  have hk : c.kindAt 0 = .comma := Cursor.kindAt_zero hc.items
  rw [if_pos (by rw [hk]; decide)]
  refine (token_char_yields (c := c.looked) .punctuator hc.items (by omega) ?_).bind ?_
  · exact Cursor.mayFail_looked.2 (hc.mayFail _)
  intro _ c₁ hpost
  obtain ⟨rfl, hr₁, hl₁⟩ := hpost
  rw [Cursor.looked_reaches] at hr₁
  have hc₁ : c₁.CanRead (ds.map .char ++ [.char '\x7d']) x := hc.step (u := [_]) hr₁
  have hstart₁ : c₁.span.start = c.span.start + 1 := (hp.reaches hr₁).2
  refine isAt_bind (by omega) ?_
  rcases ds with _ | ⟨d, ds⟩
  · have hk₁ : c₁.kindAt 0 = .braceClose := Cursor.kindAt_zero hc₁.items
    rw [if_neg (by rw [hk₁]; decide)]
    refine yields_pure ⟨?_, ?_, Cursor.reaches_looked.2 hr₁, ?_⟩
    · simp [BraceText.separator, BraceText.maxToken, BraceText.max, hb]
    · rintro _ ⟨⟩
      decide
    · rw [Cursor.looks_looked]
      omega
  have hd := b.isDigit_high _ hb
  have hk₁ : c₁.kindAt 0 = .digit := by
    rw [Cursor.kindAt_zero hc₁.items]
    exact Kind.ofChar_eq_digit_iff.2 (hd d List.mem_cons_self)
  rw [if_pos (by rw [hk₁]; decide)]
  refine (number_exact (c := c₁.looked) (Cursor.canRead_looked.2 hc₁.left) (by simp) hd
    Sigil.noDigit_close (hp.reaches hr₁).1 ?_ ?_).bind ?_
  · rw [Cursor.looks_looked]
    omega
  · intro h
    have hlarge := hlarge _ rfl h
    rwa [← hstart₁] at hlarge
  · intro _ c₂ hpost
    obtain ⟨rfl, hlt, hr₂, hl₂⟩ := hpost
    rw [Cursor.looked_reaches] at hr₂
    refine yields_pure ⟨?_, ?_, hr₁.trans hr₂, by omega⟩
    · simp [BraceText.separator, BraceText.maxToken, BraceText.max, hb]
    · rintro _ ⟨⟩
      exact hlt

/-- Braces that are ahead are read to their end, or it is told what is wrong with the numbers. -/
theorem braces_exact {b : BraceText} (hc : c.CanRead (b.chars.map .char) x) (hp : c.Placed)
    (hl : 0 < c.looks) :
    Yields braces c (fun r c' => r = (.braces b.tree, b.min, b.max) ∧ b.IsSmall
      ∧ b.fault? c.span.start = none ∧ c.Reaches (b.chars.map .char) c')
      (fun e => ∃ err, b.fault? c.span.start = some err ∧ e = .error err) := by
  have hitems : b.chars.map Item.char
      = .char '\x7b' :: (b.low.map .char ++ (b.upper.map .char ++ [.char '\x7d'])) := by
    simp [BraceText.chars]
  rw [hitems] at hc
  refine get_bind ((token_char_yields .punctuator hc.items hl (hc.mayFail _)).bind ?_)
  intro _ c₁ hpost
  obtain ⟨rfl, hr₁, hl₁⟩ := hpost
  have hc₁ : c₁.CanRead (b.low.map .char ++ (b.upper.map .char ++ [.char '\x7d'])) x :=
    hc.step (u := [_]) hr₁
  have hstart₁ : c₁.span.start = c.span.start + 1 := (hp.reaches hr₁).2
  refine (number_exact hc₁.left b.low_ne_nil b.isDigit_low ?_ (hp.reaches hr₁).1
    (by omega) ?_).bind ?_
  · rw [List.append_assoc]
    exact b.noDigit_upper x
  · intro h
    exact ⟨_, BraceText.fault?_of_low h _, by rw [hstart₁]⟩
  intro _ c₂ hpost
  obtain ⟨rfl, hlow, hr₂, hl₂⟩ := hpost
  have hr₁₂ := hr₁.trans hr₂
  have hc₂ : c₂.CanRead (b.upper.map .char ++ [.char '\x7d']) x := hc₁.step hr₂
  have hstart₂ : c₂.span.start = c.span.start + 1 + b.low.length := by
    rw [(hp.reaches hr₁).1.reaches hr₂ |>.2, hstart₁, extent_map_char,
      byteSize_of_isDigit b.isDigit_low]
  refine (upperBound_exact b hc₂ (hp.reaches hr₁₂).1 hl₂ ?_).bind ?_
  · intro ds hds h
    exact ⟨_, BraceText.fault?_of_high hlow hds h _, by rw [hstart₂]⟩
  intro _ c₃ hpost
  obtain ⟨rfl, hhigh, hr₃, hl₃⟩ := hpost
  have hr := hr₁₂.trans hr₃
  have hc₃ : c₃.CanRead [.char '\x7d'] x := hc₂.step hr₃
  have hsmall : b.IsSmall := ⟨hlow, hhigh⟩
  refine get_bind
    ((token_char_yields .punctuator hc₃.items (by omega) (hc₃.mayFail _)).bind ?_)
  intro _ c₄ hpost
  obtain ⟨rfl, hr₄, -⟩ := hpost
  have hfault := hsmall.fault?_eq c.span.start
  split
  · rename_i hallows
    change b.max.allows b.min = true at hallows
    rw [if_pos hallows] at hfault
    rw [sound_eq hsmall.ofParts_eq, pure_bind]
    refine yields_pure ⟨rfl, hsmall, hfault, ?_⟩
    rw [hitems]
    simpa using hr.trans hr₄
  · rename_i hallows
    change ¬ b.max.allows b.min = true at hallows
    rw [if_neg hallows] at hfault
    have hstop : c₃.span.stop = c.span.start + b.chars.length := by
      rw [Cursor.span_stop hc₃.items, (hp.reaches hr).2, Nat.add_assoc, ← extent_append,
        ← b.byteSize_chars, ← extent_map_char, hitems]
      simp
    have hle : c.span.start ≤ c₃.span.stop := by
      rw [hstop]
      exact Nat.le_add_right _ _
    rw [range_eq hle, pure_bind, hstop]
    exact yields_failAt ⟨_, hfault, rfl⟩

/-- At every place in a template, the scan finds the braces that stand there, and no others. They
are read as what they say, and the bounds can be read again from their tokens; or the numbers are
refused, the first that does not fit before their order. -/
theorem braces_found_and_read {t : Template} (h : c.PartOf t) :
    (startsBraces c.lexemes = true ↔ ∃ b : BraceText, b.chars.map .char <+: c.items)
    ∧ (∀ b : BraceText, b.chars.map .char <+: c.items → 0 < c.looks →
      HasFuel c.fuel b.chars.length →
      match b.fault? c.span.start with
      | none => ∃ c', braces c = .ok (.braces b.tree, b.min, b.max) c'
        ∧ c.Reaches (b.chars.map .char) c' ∧ (Sigil.braces b.tree).text = String.ofList b.chars
        ∧ b.tree.bounds? = some (b.min, b.max)
      | some e => e.kind = .quantifier ∧ ∃ c', braces c = .error (.error e) c')
    ∧ ∀ (s : String) (n : Nat), readNumber? s = some n
      ↔ s ≠ "" ∧ (∀ d ∈ s.toList, isDigit d) ∧ placeValue s.toList < 2 ^ 32
        ∧ n = placeValue s.toList := by
  refine ⟨?_, ?_, fun s n => readNumber?_eq_some_iff⟩
  · rw [startsBraces_iff c.lexemes c.substitutions]
    constructor
    · intro hopens
      obtain ⟨cs, hform, hcs⟩ := hopens
      obtain ⟨b, rfl⟩ := BraceText.braceForm_iff.1 hform
      exact ⟨b, hcs⟩
    · intro hex
      obtain ⟨b, hb⟩ := hex
      exact ⟨b.chars, BraceText.braceForm_iff.2 ⟨b, rfl⟩, hb⟩
  · intro b hb hl hfuel
    obtain ⟨x, hx⟩ := hb
    have hrun := braces_exact (Cursor.canRead_braces hx.symm hfuel) h.placed hl
    unfold Yields at hrun
    cases hp : braces c with
    | ok r c' =>
      rw [hp] at hrun
      obtain ⟨rfl, hsmall, hfault, hr⟩ := hrun
      rw [hfault]
      exact ⟨c', rfl, hr, b.text_tree, hsmall.bounds?_tree⟩
    | error e c' =>
      rw [hp] at hrun
      obtain ⟨err, hfault, rfl⟩ := hrun
      rw [hfault]
      exact ⟨b.kind_of_fault hfault, c', rfl⟩

/-- Leading zeros are kept in a token and do not count, and numbers out of order are refused. -/
theorem braces_found_and_read_samples :
    (∃ c', braces ((Template.ofText "\x7b007,12\x7d").cursor (some 8))
      = .ok (.braces ⟨Written.Sigil.openBrace, .plain .character "007", some Written.Sigil.comma,
          some (.plain .character "12"), Written.Sigil.closeBrace⟩, 7, .finite 12) c')
    ∧ ∃ c', braces ((Template.ofText "\x7b5,2\x7d").cursor none)
      = .error (.error ⟨.numbersOutOfOrder 5 (.finite 2), ⟨0, 5⟩, []⟩) c' := by
  constructor
  · obtain ⟨c', hc, -⟩ := (braces_found_and_read
      (Cursor.partOf_cursor (Template.ofText "\x7b007,12\x7d") (some 8))).2.1
      ⟨['0', '0', '7'], some ['1', '2'], by simp, by simp [isDigit], by simp [isDigit]⟩
      ⟨[], by rfl⟩ (by decide)
      (by rintro _ ⟨⟩; decide)
    exact ⟨c', hc⟩
  · exact ((braces_found_and_read
      (Cursor.partOf_cursor (Template.ofText "\x7b5,2\x7d") none)).2.1
      ⟨['5'], some ['2'], by simp, by simp [isDigit], by simp [isDigit]⟩
      ⟨[], by rfl⟩ (by decide)
      (by rintro _ ⟨⟩)).2

end Parser

end RegexLiteral
