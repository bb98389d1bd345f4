import RegexLiteral.Node.Text
import RegexLiteral.Parse.Cursor

/-!
# What stands before a cursor

A parser sees the lexemes that are left, and at a cut it takes the next node that is left. An item
is a lexeme together with what stands there, so what a parser reads is a row of items
(`Cursor.items`). A cursor reaches another by using up items (`Cursor.Reaches`): the lexemes, the
nodes and the fuel all go down by what these items take. No line terminator is ever used up.
-/

namespace RegexLiteral

inductive Item
  | char (c : Char)
  | node (n : Node)
  /-- A cut for which no node is left. -/
  | missing
  | terminators (run : List Char)

namespace Item

def kind : Item → Kind
  | char c => Kind.ofChar c
  | node _ | missing => .interpolation
  | terminators _ => .garbage

/-- The characters of the source. -/
def chars : Item → List Char
  | char c => [c]
  | node _ | missing => []
  | terminators run => run

def node? : Item → Option Node
  | node n => some n
  | _ => none

/-- The characters of the source, or the text of the node that is put in. -/
def written : Item → List Char
  | char c => [c]
  | node n => n.text.toList
  | missing => []
  | terminators run => run

end Item

/-- The lexemes, each cut with the node that belongs there. -/
def itemsOf : List Lexeme → List Node → List Item
  | [], _ => []
  | ⟨_, .char c⟩ :: ls, ns => .char c :: itemsOf ls ns
  | ⟨_, .terminators run⟩ :: ls, ns => .terminators run :: itemsOf ls ns
  | ⟨_, .interpolation⟩ :: ls, [] => .missing :: itemsOf ls []
  | ⟨_, .interpolation⟩ :: ls, n :: ns => .node n :: itemsOf ls ns

theorem map_kind_itemsOf : ∀ (ls : List Lexeme) (ns : List Node),
    (itemsOf ls ns).map Item.kind = ls.map Lexeme.kind
  | [], _ => rfl
  | ⟨_, .char _⟩ :: ls, ns => congrArg _ (map_kind_itemsOf ls ns)
  | ⟨_, .terminators _⟩ :: ls, ns => congrArg _ (map_kind_itemsOf ls ns)
  | ⟨_, .interpolation⟩ :: ls, [] => congrArg _ (map_kind_itemsOf ls [])
  | ⟨_, .interpolation⟩ :: ls, _ :: ns => congrArg _ (map_kind_itemsOf ls ns)

theorem map_chars_itemsOf : ∀ (ls : List Lexeme) (ns : List Node),
    (itemsOf ls ns).map Item.chars = ls.map Lexeme.chars
  | [], _ => rfl
  | ⟨_, .char _⟩ :: ls, ns => congrArg _ (map_chars_itemsOf ls ns)
  | ⟨_, .terminators _⟩ :: ls, ns => congrArg _ (map_chars_itemsOf ls ns)
  | ⟨_, .interpolation⟩ :: ls, [] => congrArg _ (map_chars_itemsOf ls [])
  | ⟨_, .interpolation⟩ :: ls, _ :: ns => congrArg _ (map_chars_itemsOf ls ns)

namespace Cursor

/-- What is left to be read. -/
def items (c : Cursor) : List Item := itemsOf c.lexemes c.substitutions

variable {c c' c'' : Cursor} {i j k : Item} {used used' rest : List Item}

theorem kindAt_eq (c : Cursor) (n : Nat) :
    c.kindAt n = ((c.items[n]?).map Item.kind).getD .eof := by
  rw [← List.getElem?_map, items, map_kind_itemsOf, List.getElem?_map, kindAt]
  cases c.lexemes[n]? <;> rfl

theorem charsAt_eq (c : Cursor) (n : Nat) :
    c.charsAt n = ((c.items[n]?).map Item.chars).getD [] := by
  rw [← List.getElem?_map, items, map_chars_itemsOf, List.getElem?_map, charsAt]
  cases c.lexemes[n]? <;> rfl

theorem exists_mem_of_kindAt {n : Nat} {kind : Kind} (h : c.kindAt n = kind) (hne : kind ≠ .eof) :
    ∃ l ∈ c.lexemes, l.kind = kind := by
  cases hl : c.lexemes[n]? with
  | none =>
    rw [kindAt, hl] at h
    exact absurd h.symm hne
  | some l =>
    rw [kindAt, hl] at h
    exact ⟨l, List.mem_of_getElem? hl, h⟩

/-- After the items in `used`, all else being left alone. -/
structure Reaches (c : Cursor) (used : List Item) (c' : Cursor) : Prop where
  lexemes : ∃ taken, c.lexemes = taken ++ c'.lexemes ∧ taken.length = used.length
  items : c.items = used ++ c'.items
  clean : ∀ i ∈ used, i.kind ≠ .garbage
  substitutions : c.substitutions = used.filterMap Item.node? ++ c'.substitutions
  fuel : c.fuel = c'.fuel.map (· + used.length)
  delimiters : c'.delimiters = c.delimiters
  source : c'.source = c.source
  allowance : c'.allowance = c.allowance

theorem Reaches.refl (c : Cursor) : c.Reaches [] c where
  lexemes := ⟨[], rfl, rfl⟩
  items := rfl
  clean := by simp
  substitutions := rfl
  fuel := by simp
  delimiters := rfl
  source := rfl
  allowance := rfl

theorem Reaches.trans (h : c.Reaches used c') (h' : c'.Reaches used' c'') :
    c.Reaches (used ++ used') c'' where
  lexemes := by
    obtain ⟨taken, ht, hl⟩ := h.lexemes
    obtain ⟨taken', ht', hl'⟩ := h'.lexemes
    exact ⟨taken ++ taken', by rw [ht, ht', List.append_assoc],
      by rw [List.length_append, List.length_append, hl, hl']⟩
  items := by rw [h.items, h'.items, List.append_assoc]
  clean i hi := (List.mem_append.1 hi).elim (h.clean i) (h'.clean i)
  substitutions := by
    rw [h.substitutions, h'.substitutions, List.filterMap_append, List.append_assoc]
  fuel := by
    rw [h.fuel, h'.fuel, Option.map_map]
    congr 1
    funext n
    simp only [Function.comp_apply, List.length_append]
    omega
  delimiters := h'.delimiters.trans h.delimiters
  source := h'.source.trans h.source
  allowance := h'.allowance.trans h.allowance

theorem Reaches.length_lt (h : c.Reaches used c') (hne : used ≠ []) :
    c'.lexemes.length < c.lexemes.length := by
  obtain ⟨taken, ht, hl⟩ := h.lexemes
  have := List.length_pos_iff.2 hne
  rw [ht, List.length_append]
  omega

/-- What is read between two delimiters is read as if they were not noted. -/
theorem Reaches.between {d : OpenDelimiter}
    (h : Reaches { c with delimiters := d :: c.delimiters } used c') :
    c.Reaches used { c' with delimiters := c'.delimiters.tail } where
  lexemes := h.lexemes
  items := h.items
  clean := h.clean
  substitutions := h.substitutions
  fuel := h.fuel
  delimiters := by rw [h.delimiters]; rfl
  source := h.source
  allowance := h.allowance

theorem Reaches.items_eq (h : c.Reaches used c') (hc : c.items = used ++ rest) :
    c'.items = rest :=
  List.append_cancel_left (h.items.symm.trans hc)

end Cursor

end RegexLiteral
