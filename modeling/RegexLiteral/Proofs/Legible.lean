import RegexLiteral.Proofs.Genuine
import RegexLiteral.Proofs.Sound

/-!
# Trees that are read back from their text

A tree is legible if nothing in it runs together with its neighbours (`Pattern.Legible`): every
character can stand where it stands, no sigil between braces and no range comes about, and a class
does not get negated. Here the rules are stated for all nodes, and shown of the classes: one that is
read without nodes keeps them (`charClass_legible`), and a genuine class that keeps them has a body
without nodes (`exists_charClass`).
-/

namespace RegexLiteral

/-! ## Legible trees -/

/-- The literal character `a` stands first. -/
def BeginsWith (a : Char) : List ClassElement → Prop
  | .character c :: _ => c = .ofChar a
  | .range r :: _ => r.min = .ofChar a
  | _ => False

/-- A literal minus stands first, and a character behind it. -/
def BeginsRangeEnd : List ClassElement → Prop
  | .character c :: e :: _ => c = .ofChar '-' ∧ e.type ≠ .wordCharacterSet
  | .range r :: _ => r.min = .ofChar '-'
  | _ => False

/-- No character that is an element begins a range. -/
def RangesKept : List ClassElement → Prop
  | [] => True
  | .character _ :: es => ¬ BeginsRangeEnd es ∧ RangesKept es
  | _ :: es => RangesKept es

structure CharacterClass.Legible (c : CharacterClass) : Prop where
  closes : .ofChar ']' ∉ c.characters
  negates : c.negateToken = none → ¬ BeginsWith '^' c.elements
  ranges : RangesKept c.elements

/-- A character is none of those that mean something else outside of a class. -/
def Atom.Legible : Atom → Prop
  | character c => (∀ a ∈ Written.reserved, c ≠ .ofChar a) ∧ c ≠ .ofCode 'g'
  | characterClass c => c.Legible
  | _ => True

def Element.Legible : Element → Prop
  | atom a => a.Legible
  | quantifier q => q.atom.Legible

/-- No text from one of the elements on begins with a complete sigil between braces. -/
def BracesKept : List Element → Prop
  | [] => True
  | e :: es => (¬ ∃ cs, Written.BraceForm cs ∧ cs <+: spelled ((e :: es).flatMap Element.tokens))
      ∧ BracesKept es

structure Alternative.Legible (a : Alternative) : Prop where
  elements : ∀ e ∈ a.elements, e.Legible
  braces : BracesKept a.elements

def Pattern.Legible (p : Pattern) : Prop := ∀ a ∈ p.alternatives, a.Legible

/-! ## Items that are text -/

/-- A character that can stand in a literal. -/
inductive Item.Textual : Item → Prop
  | char {c : Char} (hl : ¬ isLineTerminator c) : Textual (.char c)

theorem Item.Textual.genuine {i : Item} (h : i.Textual) : i.Genuine := by
  cases h with
  | char hl => exact .char hl

/-- All of the row is text. -/
def Textual (is : List Item) : Prop := ∀ i ∈ is, i.Textual

theorem textual_append {is js : List Item} : Textual (is ++ js) ↔ Textual is ∧ Textual js :=
  List.forall_mem_append

theorem textual_cons {i : Item} {is : List Item} : Textual (i :: is) ↔ i.Textual ∧ Textual is :=
  List.forall_mem_cons

theorem textual_flatMap {items : α → List Item} {as : List α} :
    Textual (as.flatMap items) ↔ ∀ a ∈ as, Textual (items a) := by
  induction as with
  | nil => simp [Textual]
  | cons a as ih => rw [List.flatMap_cons, textual_append, ih, List.forall_mem_cons]

theorem Textual.eq_map {is : List Item} (h : Textual is) : is = (written is).map .char := by
  induction is with
  | nil => rfl
  | cons i is ih =>
    obtain ⟨hi, his⟩ := textual_cons.1 h
    cases hi with
    | char hl => exact congrArg _ (ih his)

theorem textual_map_char {cs : List Char} :
    Textual (cs.map .char) ↔ ∀ c ∈ cs, ¬ isLineTerminator c := by
  constructor
  · intro h c hc
    exact (h (.char c) (List.mem_map_of_mem hc)).genuine.not_isLineTerminator
  · intro h i hi
    obtain ⟨c, hc, rfl⟩ := List.mem_map.1 hi
    exact .char (h c hc)

theorem textual_singleton {c : Char} (hl : ¬ isLineTerminator c) : Textual [.char c] :=
  textual_map_char.2 (List.forall_mem_singleton.2 hl)

theorem textual_pair {code : Char} (hl : ¬ isLineTerminator code) :
    Textual [.char '\\', .char code] :=
  textual_cons.2 ⟨.char (by decide), textual_singleton hl⟩

theorem not_isLineTerminator_of_isWordCode {code : Char} (h : Parser.isWordCode code) :
    ¬ isLineTerminator code := by
  simp only [Parser.isWordCode, Bool.or_eq_true, beq_iff_eq] at h
  rcases h with rfl | rfl <;> decide

theorem not_textual_node {n : Node} : ¬ Textual [.node n] := fun h => by
  cases h (.node n) List.mem_cons_self

theorem ofChar_inj {a b : Char} : Character.ofChar a = .ofChar b ↔ a = b := by
  simp [Character.ofChar, Token.ofChar, Token.plain]

theorem ofCode_inj {a b : Char} : Character.ofCode a = .ofCode b ↔ a = b := by
  refine ⟨fun h => ?_, fun h => h ▸ rfl⟩
  have hcode : (EscapeSequence.ofCode a).code.text = (EscapeSequence.ofCode b).code.text :=
    congrArg (·.code.text) (Character.escaped.inj h)
  exact String.singleton_inj.1 hcode

namespace Written

/-! ## Classes -/

namespace ClassAtom

variable {a : ClassAtom} {c : Character} {as : List ClassAtom} {es : List ClassElement}

theorem exists_classAtom (h : c.Genuine) (hc : c ≠ .ofChar ']') :
    ∃ a : ClassAtom, Textual a.items ∧ a.character? = some c := by
  cases h with
  | @literal d hd hl =>
    have hclose : d ≠ ']' := by
      rintro rfl
      exact hc rfl
    exact ⟨.char d ⟨hclose, hd⟩, textual_singleton hl, rfl⟩
  | @escaped code hw hl =>
    exact ⟨.pair code, textual_pair hl, by rw [character?, element, if_neg hw]⟩

/-- A literal character is written as itself. -/
theorem eq_char (h : Textual a.items) {d : Char} (hc : a.character? = some (.ofChar d)) :
    ∃ hd, a = .char d hd := by
  cases a with
  | char e he =>
    obtain rfl := ofChar_inj.1 (Option.some.inj hc)
    exact ⟨he, rfl⟩
  | pair code =>
    have he := element_eq hc
    rw [element] at he
    split at he <;> cases he
  | node n e he => exact absurd h not_textual_node

theorem character_ne_close (h : Textual a.items) (hc : a.character? = some c) :
    c ≠ .ofChar ']' := by
  rintro rfl
  obtain ⟨hd, -⟩ := eq_char h hc
  exact hd.1 rfl

theorem isMinus_iff_character (h : Textual a.items) (hc : a.character? = some c) :
    a.isMinus ↔ c = .ofChar '-' := by
  constructor
  · intro hminus
    cases a with
    | char d hd =>
      obtain rfl := eq_of_beq hminus
      exact (Option.some.inj hc).symm
    | _ => cases hminus
  · rintro rfl
    obtain ⟨hd, rfl⟩ := eq_char h hc
    rfl

/-- Atoms that spell the elements one after another, a range with its ends and the minus. -/
inductive Spell : List ClassAtom → List ClassElement → Prop
  | nil : Spell [] []
  | character {a : ClassAtom} {c : Character} {as : List ClassAtom} {es : List ClassElement}
    (ha : a.character? = some c) (h : Spell as es) : Spell (a :: as) (.character c :: es)
  | range {a b c : ClassAtom} {min max : Character} {as : List ClassAtom} {es : List ClassElement}
    (hmin : a.character? = some min) (hminus : b.isMinus) (hmax : c.character? = some max)
    (h : Spell as es) :
    Spell (a :: b :: c :: as) (.range ⟨min, .ofChar .punctuator '-', max⟩ :: es)
  | wordCharacterSet {a : ClassAtom} {s : WordCharacterSet} {as : List ClassAtom}
    {es : List ClassElement} (ha : a.element = .wordCharacterSet s) (h : Spell as es) :
    Spell (a :: as) (.wordCharacterSet s :: es)

namespace Spell

variable {as : List ClassAtom} {es : List ClassElement}

theorem elements_self {as : List ClassAtom} (h : ∀ a ∈ as, Textual a.items) :
    Spell as (elements as) := by
  have hcons {a : ClassAtom} {as : List ClassAtom} {es : List ClassElement} (ha : Textual a.items)
      (hs : Spell as es) : Spell (a :: as) (a.element :: es) := by
    cases he : a.element with
    | character c => exact .character (by rw [character?, he]) hs
    | wordCharacterSet s => exact .wordCharacterSet he hs
    | range r =>
      cases a with
      | char d hd => cases he
      | pair code =>
        rw [element] at he
        split at he <;> cases he
      | node n e he => exact absurd ha not_textual_node
  fun_induction elements as with
  | case1 => exact .nil
  | case2 a => exact hcons (h a List.mem_cons_self) .nil
  | case3 a b => exact hcons (h a (by simp)) (hcons (h b (by simp)) .nil)
  | case4 a b c rest min max hmax hminus hmin ih =>
    exact .range hmin hminus hmax (ih fun d hd => h d (by simp [hd]))
  | case5 a b c rest hne ih =>
    exact hcons (h a List.mem_cons_self) (ih fun d hd => h d (List.mem_cons_of_mem _ hd))

theorem rangeStart_iff (hs : Spell as es) (h : ∀ a ∈ as, Textual a.items) :
    RangeStart as ↔ BeginsRangeEnd es := by
  cases hs with
  | nil => simp [RangeStart, BeginsRangeEnd]
  | character ha hs =>
    rw [List.forall_mem_cons] at h
    cases hs with
    | nil => simp [not_rangeStart_singleton, BeginsRangeEnd]
    | character hb _ =>
      rw [rangeStart_cons_cons, isMinus_iff_character h.1 ha, hb]
      simp [BeginsRangeEnd, ClassElement.type]
    | range hmin _ _ _ =>
      rw [rangeStart_cons_cons, isMinus_iff_character h.1 ha, hmin]
      simp [BeginsRangeEnd, ClassElement.type]
    | wordCharacterSet hb _ =>
      rw [rangeStart_cons_cons, character?, hb]
      simp [BeginsRangeEnd, ClassElement.type]
  | @range _ b _ min _ _ _ hmin hminus _ _ =>
    rw [List.forall_mem_cons] at h
    have hb : b.character?.isSome := by
      cases b with
      | char d hd => rfl
      | _ => cases hminus
    rw [rangeStart_cons_cons, isMinus_iff_character h.1 hmin]
    simp [BeginsRangeEnd, hb]
  | @wordCharacterSet a s as es ha hs =>
    have hminus : ¬ a.isMinus := by
      intro hminus
      cases a with
      | char d hd => cases ha
      | _ => cases hminus
    constructor
    · rintro ⟨_, _, _, ⟨⟩, hm, -⟩
      exact hminus hm
    · exact False.elim

/-- The elements are grouped as they were if no element begins a range. -/
theorem elements_eq_iff (hs : Spell as es) (h : ∀ a ∈ as, Textual a.items) :
    elements as = es ↔ RangesKept es := by
  induction hs with
  | nil => simp [elements, RangesKept]
  | @character a c as es ha hs ih =>
    rw [List.forall_mem_cons] at h
    rw [RangesKept, ← hs.rangeStart_iff h.2, ← ih h.2]
    -- Only an atom that is an element by itself can be grouped otherwise.
    by_cases hr : RangeStart as
    · obtain ⟨r, es', he⟩ := elements_of_rangeStart ha hr
      rw [he]
      simp [hr]
    · rw [elements_cons_of_not_range (.inr hr), element_eq ha]
      simp [hr]
  | @range a b c min max as es hmin hminus hmax hs ih =>
    simp only [List.forall_mem_cons] at h
    have he : elements (a :: b :: c :: as)
        = .range ⟨min, .ofChar .punctuator '-', max⟩ :: elements as := by
      rw [elements, hmin, hminus, hmax]
    rw [he, List.cons_inj_right, ih h.2.2.2]
    rfl
  | @wordCharacterSet a s as es ha hs ih =>
    rw [List.forall_mem_cons] at h
    have hnone : a.character? = none := by rw [character?, ha]
    rw [elements_cons_of_not_range (.inl hnone), ha, List.cons_inj_right, ih h.2]
    rfl

/-- Whatever character is spelled, one of the atoms is it. -/
theorem exists_of_mem_characters (hs : Spell as es) {c : Character}
    (hc : c ∈ es.flatMap ClassElement.characters) : ∃ a ∈ as, a.character? = some c := by
  induction hs with
  | nil => cases hc
  | @character a d as es ha hs ih =>
    rcases List.mem_cons.1 hc with rfl | hc
    · exact ⟨a, List.mem_cons_self, ha⟩
    · obtain ⟨b, hb, hbc⟩ := ih hc
      exact ⟨b, List.mem_cons_of_mem _ hb, hbc⟩
  | @range a b d min max as es hmin hminus hmax hs ih =>
    rcases List.mem_cons.1 hc with rfl | hc
    · exact ⟨a, List.mem_cons_self, hmin⟩
    rcases List.mem_cons.1 hc with rfl | hc
    · exact ⟨d, by simp, hmax⟩
    · obtain ⟨e, he, hec⟩ := ih hc
      exact ⟨e, by simp [he], hec⟩
  | @wordCharacterSet a s as es ha hs ih =>
    obtain ⟨b, hb, hbc⟩ := ih hc
    exact ⟨b, List.mem_cons_of_mem _ hb, hbc⟩

/-- A literal stands first in what is spelled exactly if it stands first. -/
theorem beginsWith_iff (hs : Spell as es) (h : ∀ a ∈ as, Textual a.items) {d : Char} :
    BeginsWith d es ↔ ∃ hd rest, as = .char d hd :: rest := by
  have hchar {a : ClassAtom} {c : Character} {as : List ClassAtom} (ha : Textual a.items)
      (hc : a.character? = some c) : c = .ofChar d ↔ ∃ hd rest, a :: as = .char d hd :: rest := by
    constructor
    · rintro rfl
      obtain ⟨hd, rfl⟩ := eq_char ha hc
      exact ⟨hd, as, rfl⟩
    · rintro ⟨hd, rest, ⟨⟩⟩
      exact (Option.some.inj hc).symm
  cases hs with
  | nil => simp [BeginsWith]
  | character ha hs => exact hchar (h _ List.mem_cons_self) ha
  | range hmin _ _ hs => exact hchar (h _ List.mem_cons_self) hmin
  | wordCharacterSet ha hs =>
    constructor
    · exact False.elim
    · rintro ⟨hd, rest, ⟨⟩⟩
      cases ha

theorem exists_atoms : ∀ {es : List ClassElement}, (∀ e ∈ es, e.Genuine) →
    .ofChar ']' ∉ es.flatMap ClassElement.characters →
    ∃ as : List ClassAtom, (∀ a ∈ as, Textual a.items) ∧ Spell as es
  | [], _, _ => ⟨[], by simp, .nil⟩
  | e :: es, h, hc => by
    rw [List.forall_mem_cons] at h
    rw [List.flatMap_cons, List.mem_append, not_or] at hc
    obtain ⟨as, has, hs⟩ := exists_atoms h.2 hc.2
    obtain ⟨he, -⟩ := h
    replace hc := hc.1
    cases he with
    | @character c hg =>
      have hne : c ≠ .ofChar ']' := fun hne => hc (by simp [ClassElement.characters, hne])
      obtain ⟨a, ha, hac⟩ := exists_classAtom hg hne
      exact ⟨a :: as, List.forall_mem_cons.2 ⟨ha, has⟩, .character hac hs⟩
    | @range min max hmin hmax =>
      simp only [ClassElement.characters, CharacterClassRange.characters, List.mem_cons,
        List.not_mem_nil, or_false, not_or] at hc
      obtain ⟨a, ha, hac⟩ := exists_classAtom hmin (Ne.symm hc.1)
      obtain ⟨b, hb, hbc⟩ := exists_classAtom hmax (Ne.symm hc.2)
      have hminus : Textual (ClassAtom.char '-' (by decide)).items :=
        textual_singleton (by decide)
      refine ⟨a :: .char '-' (by decide) :: b :: as, ?_, .range hac rfl hbc hs⟩
      exact List.forall_mem_cons.2 ⟨ha, List.forall_mem_cons.2 ⟨hminus,
        List.forall_mem_cons.2 ⟨hb, has⟩⟩⟩
    | @wordCharacterSet s hg =>
      obtain @⟨code, hw⟩ := hg
      have ha : Textual (ClassAtom.pair code).items :=
        textual_pair (not_isLineTerminator_of_isWordCode hw)
      exact ⟨.pair code :: as, List.forall_mem_cons.2 ⟨ha, has⟩,
        .wordCharacterSet (by rw [element, if_pos hw]) hs⟩

end Spell

theorem charClass_legible {body : List ClassAtom} (h : ∀ a ∈ body, Textual a.items) :
    (charClass body).Legible := by
  have hrest : ∀ a ∈ (negation body).2, Textual a.items := fun a ha => h a (mem_of_mem_negation ha)
  have hs : Spell (negation body).2 (charClass body).elements := Spell.elements_self hrest
  refine ⟨?_, ?_, (hs.elements_eq_iff hrest).1 rfl⟩
  · intro hclose
    obtain ⟨a, ha, hac⟩ := hs.exists_of_mem_characters hclose
    exact character_ne_close (hrest a ha) hac rfl
  · intro hnone hcaret
    obtain ⟨hc, rest, hbody⟩ := (hs.beginsWith_iff hrest).1 hcaret
    rcases negation_cases body with ⟨hc', rest', rfl⟩ | hsame
    · have hsome : (negation (.char '^' hc' :: rest')).1 = none := hnone
      rw [negation_caret] at hsome
      cases hsome
    · obtain rfl : body = .char '^' hc :: rest := by rwa [hsame] at hbody
      rw [negation_caret] at hsame
      cases hsame

theorem exists_charClass {c : CharacterClass} (hg : c.Genuine) (hl : c.Legible) :
    ∃ body : List ClassAtom, (∀ a ∈ body, Textual a.items) ∧ charClass body = c := by
  obtain ⟨as, has, hs⟩ := Spell.exists_atoms hg.elements hl.closes
  have helements : elements as = c.elements := (hs.elements_eq_iff has).2 hl.ranges
  have hopens := hg.opens
  have hcloses := hg.closes
  obtain ⟨openToken, negateToken, es, closeToken⟩ := c
  obtain rfl : openToken = _ := hopens
  obtain rfl : closeToken = _ := hcloses
  obtain rfl : elements as = es := helements
  cases negateToken with
  | none =>
    have hnegation : negation as = (none, as) := by
      rcases negation_cases as with ⟨hc, rest, has'⟩ | hsame
      · exact absurd ((hs.beginsWith_iff has).2 ⟨hc, rest, has'⟩) (hl.negates rfl)
      · exact hsame
    exact ⟨as, has, by rw [charClass, hnegation]⟩
  | some t =>
    obtain rfl : t = .ofChar .punctuator '^' := hg.negates t rfl
    have hcaret : Textual (ClassAtom.char '^' (by decide)).items :=
      textual_singleton (by decide)
    exact ⟨.char '^' (by decide) :: as, List.forall_mem_cons.2 ⟨hcaret, has⟩,
      by rw [charClass, negation_caret]⟩

end ClassAtom

end Written

end RegexLiteral
