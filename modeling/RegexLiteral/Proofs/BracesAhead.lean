import RegexLiteral.Proofs.Unambiguous

/-!
# Braces ahead

Before a brace is taken for a sigil, the lexemes ahead are scanned: digits, then a closing brace, or
a comma, more digits and a closing brace. The scan finds the sigils of the grammar that begin there,
whatever the values of their numbers (`startsBraces_iff`).
-/

namespace RegexLiteral

open Written

namespace Written

variable {is x y : List Item}

/-- The digits that a row of items begins with. -/
def digitsOf : List Item → List Char
  | .char d :: rest => if Text.isDigit d then d :: digitsOf rest else []
  | _ => []

/-- What follows the digits that a row of items begins with. -/
def afterDigits : List Item → List Item
  | .char d :: rest => if Text.isDigit d then afterDigits rest else .char d :: rest
  | rest => rest

theorem digits_afterDigits : ∀ is : List Item,
    (digitsOf is).map .char ++ afterDigits is = is
  | [] => rfl
  | .char d :: is => by
    unfold digitsOf afterDigits
    split
    · rw [List.map_cons, List.cons_append, digits_afterDigits is]
    · rfl
  | .node _ :: _ | .missing :: _ | .terminators _ :: _ => rfl

theorem isDigit_of_mem_digitsOf : ∀ is : List Item, ∀ d ∈ digitsOf is, Text.isDigit d
  | [], d, hd => absurd hd List.not_mem_nil
  | .char e :: is, d, hd => by
    unfold digitsOf at hd
    split at hd
    · rename_i he
      rcases List.mem_cons.1 hd with rfl | hd
      · exact he
      · exact isDigit_of_mem_digitsOf is d hd
    · exact absurd hd List.not_mem_nil
  | .node _ :: _, d, hd | .missing :: _, d, hd | .terminators _ :: _, d, hd =>
    absurd hd List.not_mem_nil

theorem noDigit_afterDigits : ∀ is : List Item, NoDigit (afterDigits is)
  | [], d, rest, h => by simp [afterDigits] at h
  | .char e :: is, d, rest, h => by
    unfold afterDigits at h
    split at h
    · exact noDigit_afterDigits is d rest h
    · rename_i he
      rwa [← Item.char.inj (List.cons.inj h).1]
  | .node _ :: _, d, rest, h | .missing :: _, d, rest, h | .terminators _ :: _, d, rest, h => by
    simp [afterDigits] at h

/-- A run of digits up to the first item that is none is what the two functions find. -/
theorem digitsOf_append {ds : List Char} (hd : ∀ d ∈ ds, Text.isDigit d) (hx : NoDigit x) :
    digitsOf (ds.map .char ++ x) = ds ∧ afterDigits (ds.map .char ++ x) = x :=
  digits_append_inj (noDigit_afterDigits _) hx (isDigit_of_mem_digitsOf _) hd
    (digits_afterDigits _)

/-- What stands behind the first number of a complete sigil: the closing brace, or a comma, the
digits of a second number if there are any, and the closing brace. -/
def ClosesBraces (x : List Item) : Prop :=
  (∃ y, x = .char '\x7d' :: y)
    ∨ ∃ (es : List Char) (y : List Item), (∀ e ∈ es, Text.isDigit e)
      ∧ x = .char ',' :: (es.map .char ++ .char '\x7d' :: y)

theorem ClosesBraces.noDigit (h : ClosesBraces x) : NoDigit x := by
  rcases h with ⟨y, rfl⟩ | ⟨es, y, -, rfl⟩
  · exact Sigil.noDigit_close
  · exact Sigil.noDigit_comma

theorem opensBraces_iff : OpensBraces is ↔ ∃ (ds : List Char) (x : List Item), ds ≠ [] 
    ∧ (∀ d ∈ ds, Text.isDigit d) ∧ ClosesBraces x ∧ is = .char '\x7b' :: (ds.map .char ++ x) := by
  constructor
  · intro hex
    obtain ⟨cs, hcs, y, rfl⟩ := hex
    cases hcs with
    | @exactly ds hne hd =>
      exact ⟨ds, .char '\x7d' :: y, hne, hd, .inl ⟨y, rfl⟩, by simp⟩
    | @atLeast ds hne hd =>
      exact ⟨ds, .char ',' :: .char '\x7d' :: y, hne, hd, .inr ⟨[], y, by simp, rfl⟩, by simp⟩
    | @between ds es hne hd _ he =>
      exact ⟨ds, _, hne, hd, .inr ⟨es, y, he, rfl⟩, by simp⟩
  · intro hex
    obtain ⟨ds, x, hne, hd, ⟨y, rfl⟩ | ⟨es, y, he, rfl⟩, rfl⟩ := hex
    · exact ⟨_, .exactly hne hd, y, by simp⟩
    · by_cases hes : es = []
      · exact ⟨_, .atLeast hne hd, y, by simp [hes]⟩
      · exact ⟨_, .between hne hd hes he, y, by simp⟩

end Written

namespace Parser

variable {ls : List Lexeme} {ns : List Node}

theorem kind_char_beq_digit (start : Nat) (a : Char) :
    (Lexeme.kind ⟨start, .char a⟩ == .digit) = Text.isDigit a := by
  rw [Bool.eq_iff_iff, beq_iff_eq]
  exact Kind.ofChar_eq_digit_iff

theorem length_takeWhile_digit : ∀ (ls : List Lexeme) (ns : List Node),
    (ls.takeWhile fun l => l.kind == .digit).length = (digitsOf (itemsOf ls ns)).length
  | [], _ => rfl
  | ⟨start, .char a⟩ :: ls, ns => by
    rw [List.takeWhile_cons, kind_char_beq_digit, itemsOf, digitsOf]
    split
    · rw [List.length_cons, List.length_cons, length_takeWhile_digit ls ns]
    · rfl
  | ⟨_, .terminators _⟩ :: ls, ns => rfl
  | ⟨_, .interpolation⟩ :: ls, [] => rfl
  | ⟨_, .interpolation⟩ :: ls, _ :: ns => rfl

theorem itemsOf_dropWhile_digit : ∀ (ls : List Lexeme) (ns : List Node),
    itemsOf (ls.dropWhile fun l => l.kind == .digit) ns = afterDigits (itemsOf ls ns)
  | [], _ => rfl
  | ⟨start, .char a⟩ :: ls, ns => by
    rw [List.dropWhile_cons, kind_char_beq_digit, itemsOf, afterDigits]
    split
    · exact itemsOf_dropWhile_digit ls ns
    · rfl
  | ⟨_, .terminators _⟩ :: ls, ns => rfl
  | ⟨_, .interpolation⟩ :: ls, [] => rfl
  | ⟨_, .interpolation⟩ :: ls, _ :: ns => rfl

theorem itemsOf_eq_cons {k : Kind} {a : Char} (hk : k.char? = some a) {x : List Item} :
    itemsOf ls ns = .char a :: x ↔ ∃ l ls', ls = l :: ls' ∧ l.kind = k ∧ x = itemsOf ls' ns := by
  constructor
  · intro h
    rcases ls with _ | ⟨⟨start, b | _ | run⟩, ls⟩
    · cases h
    · obtain ⟨hb, hx⟩ := List.cons.inj h
      exact ⟨_, ls, rfl, (Kind.ofChar_eq_iff hk).2 (Item.char.inj hb), hx.symm⟩
    · cases ns <;> simp [itemsOf] at h
    · simp [itemsOf] at h
  · intro hex
    obtain ⟨⟨start, b | _ | run⟩, ls, rfl, rfl, rfl⟩ := hex
    · rw [itemsOf, (Kind.ofChar_eq_iff hk).1 rfl]
    · cases hk
    · cases hk

/-- The lookahead finds the sigils between braces, whatever their numbers are. -/
theorem startsBraces_iff (ls : List Lexeme) (ns : List Node) :
    startsBraces ls = true ↔ OpensBraces (itemsOf ls ns) := by
  rw [opensBraces_iff]
  constructor
  · intro h
    cases ls with
    | nil => cases h
    | cons l ls =>
      simp only [startsBraces, Bool.and_eq_true, beq_iff_eq, bne_iff_ne] at h
      obtain ⟨⟨hopen, hne⟩, h⟩ := h
      rw [length_takeWhile_digit ls ns, ne_eq, List.length_eq_zero_iff] at hne
      refine ⟨_, afterDigits (itemsOf ls ns), hne, isDigit_of_mem_digitsOf _, ?_, ?_⟩
      · rw [← itemsOf_dropWhile_digit]
        split at h
        · cases h
        rename_i next rest hdrop
        rw [hdrop]
        split at h
        · rename_i hcomma
          split at h
          · cases h
          rename_i last more hdrop'
          refine .inr ⟨digitsOf (itemsOf rest ns), itemsOf more ns, isDigit_of_mem_digitsOf _, ?_⟩
          rw [← (itemsOf_eq_cons (k := .braceClose) rfl).2 ⟨last, more, rfl, eq_of_beq h, rfl⟩,
            ← hdrop', itemsOf_dropWhile_digit, digits_afterDigits]
          exact (itemsOf_eq_cons (k := .comma) rfl).2 ⟨next, rest, rfl, hcomma, rfl⟩
        · exact .inl ⟨_, (itemsOf_eq_cons (k := .braceClose) rfl).2
            ⟨next, rest, rfl, eq_of_beq h, rfl⟩⟩
      · rw [digits_afterDigits]
        exact (itemsOf_eq_cons (k := .braceOpen) rfl).2 ⟨l, ls, rfl, hopen, rfl⟩
  · intro h
    obtain ⟨ds, x, hne, hd, hx, h⟩ := h
    obtain ⟨l, ls, rfl, hopen, hls⟩ := (itemsOf_eq_cons (k := .braceOpen) rfl).1 h
    obtain ⟨hds, hafter⟩ := digitsOf_append hd hx.noDigit
    rw [hls] at hds hafter
    simp only [startsBraces, Bool.and_eq_true, beq_iff_eq, bne_iff_ne]
    refine ⟨⟨hopen, ?_⟩, ?_⟩
    · rw [length_takeWhile_digit ls ns, hds, ne_eq, List.length_eq_zero_iff]
      exact hne
    rw [← itemsOf_dropWhile_digit] at hafter
    rcases hx with ⟨y, rfl⟩ | ⟨es, y, he, rfl⟩
    · obtain ⟨last, more, hdrop, hlast, -⟩ := (itemsOf_eq_cons (k := .braceClose) rfl).1 hafter
      rw [hdrop]
      simp [hlast]
    · obtain ⟨next, rest, hdrop, hnext, hrest⟩ := (itemsOf_eq_cons (k := .comma) rfl).1 hafter
      obtain ⟨-, hafter'⟩ := digitsOf_append he (Sigil.noDigit_close (x := y))
      rw [hrest, ← itemsOf_dropWhile_digit] at hafter'
      obtain ⟨last, more, hdrop', hlast, -⟩ := (itemsOf_eq_cons (k := .braceClose) rfl).1 hafter'
      rw [hdrop]
      simp [hnext, hdrop', hlast]

end Parser

end RegexLiteral
