import RegexLiteral.Node.Family
import RegexLiteral.Node.Rules

/-!
# Sound nodes

The rules of each type as propositions (`Rules`), which are what its check tests
(`check_eq_ok_iff`). A value is built if the rules hold of it and of all that it is made of, the
rule of literal characters left out (`Built`): so are the values that the checked constructors make,
with any token as a literal character. It is sound if that rule holds of its characters too
(`Sound`).
-/

namespace RegexLiteral

theorem bind_eq_ok_iff {ε α β : Type} {a : Except ε α} {f : α → Except ε β} {y : β} :
    (a >>= f) = .ok y ↔ ∃ x, a = .ok x ∧ f x = .ok y := by
  cases a <;> simp [Bind.bind, Except.bind]

theorem bind_unit_eq_ok_iff {ε α : Type} {a : Except ε Unit} {f : Unit → Except ε α} {x : α} :
    (a >>= f) = .ok x ↔ a = .ok () ∧ f () = .ok x := by
  rw [bind_eq_ok_iff]
  exact ⟨fun ⟨(), h⟩ => h, fun h => ⟨(), h⟩⟩

theorem require_eq_ok_iff {p : Prop} [Decidable p] {cause : InvalidNode} :
    require p cause = .ok () ↔ p := by
  unfold require
  split <;> simp_all

/-- A value that is returned if its rules hold. -/
theorem checked_eq_ok_iff {α : Type} {check : Except InvalidNode Unit} {rules : α → Prop} {a x : α}
    (h : check = .ok () ↔ rules a) :
    (check >>= fun _ => pure a) = .ok x ↔ a = x ∧ rules x := by
  rw [bind_unit_eq_ok_iff, h, and_comm]
  change Except.ok a = Except.ok x ∧ _ ↔ _
  rw [Except.ok.injEq]
  exact and_congr_right fun hax => hax ▸ Iff.rfl

/-! ## Rules -/

namespace Token

variable {t : Token} {owner : Owner} {role : Role} {text : String} {closer : Char}
  {span : SpanName}

theorem char?_eq_some_iff {c : Char} : t.char? = some c ↔ t.text = String.singleton c := by
  rw [← String.toList_inj, String.toList_singleton]
  unfold char?
  split <;> simp_all

def Rules (t : Token) : Prop := t.text ≠ ""

/-- The token reads `text` and opens `span`, which `closer` closes. -/
def Opens (t : Token) (text : String) (closer : Char) (span : SpanName) : Prop :=
  t.text = text ∧ t.pairing = some ⟨closer, span⟩

/-- The token reads `text` and closes the span of its opener. -/
def Balances (t : Token) (text : String) : Prop := t.text = text ∧ t.isBalancer = true

theorem check_eq_ok_iff : t.check = .ok () ↔ t.Rules := require_eq_ok_iff

theorem ofParts_eq_ok_iff {category : Category} :
    ofParts category text = .ok t ↔ plain category text = t ∧ t.Rules :=
  checked_eq_ok_iff check_eq_ok_iff

theorem checkText_eq_ok_iff : t.checkText owner role text = .ok () ↔ t.text = text :=
  require_eq_ok_iff

theorem checkOpening_eq_ok_iff :
    t.checkOpening owner text closer span = .ok () ↔ t.Opens text closer span := by
  unfold checkOpening
  rw [bind_unit_eq_ok_iff, checkText_eq_ok_iff, require_eq_ok_iff]
  rfl

theorem checkBalancing_eq_ok_iff :
    t.checkBalancing owner text = .ok () ↔ t.Balances text := by
  unfold checkBalancing
  rw [bind_unit_eq_ok_iff, checkText_eq_ok_iff, require_eq_ok_iff]
  rfl

end Token

/-- A literal is one character of category `character`. -/
def Character.Rules : Character → Prop
  | literal t => t.category = .character ∧ ∃ c, t.text = String.singleton c
  | escaped _ => True

theorem Character.check_eq_ok_iff {c : Character} : c.check = .ok () ↔ c.Rules := by
  cases c with
  | literal t =>
    unfold check
    rw [bind_unit_eq_ok_iff, require_eq_ok_iff, require_eq_ok_iff, Option.isSome_iff_exists]
    simp only [Token.char?_eq_some_iff, Rules]
  | escaped e => simp [check, Rules]

theorem Character.exists_of_not_rules {c : Character} (h : ¬ c.Rules) :
    ∃ cause, c.check = .error cause ∧ cause.owner = .character := by
  cases c with
  | literal t =>
    by_cases hcategory : t.category = .character
    · have hchar : t.char?.isSome = false := by
        rw [Option.isSome_eq_false_iff, Option.isNone_iff_eq_none,
          Option.eq_none_iff_forall_ne_some]
        exact fun a ha => h ⟨hcategory, a, Token.char?_eq_some_iff.1 ha⟩
      refine ⟨.literalLength t.text, ?_, rfl⟩
      simp [check, require, hcategory, hchar, Bind.bind, Except.bind]
    · refine ⟨.literalCategory t.category, ?_, rfl⟩
      simp [check, require, hcategory, Bind.bind, Except.bind]
  | escaped e => exact absurd trivial h

theorem Character.ofToken_eq_ok_iff {t : Token} {c : Character} :
    ofToken t = .ok c ↔ literal t = c ∧ c.Rules :=
  checked_eq_ok_iff check_eq_ok_iff

/-- A character that keeps the rule stands for one. -/
theorem Character.Rules.isSome_value? {c : Character} (h : c.Rules) : c.value?.isSome := by
  cases c with
  | literal t =>
    obtain ⟨-, a, ha⟩ := h
    rw [value?, Token.char?_eq_some_iff.2 ha]
    rfl
  | escaped e => rfl

structure EscapeSequence.Rules (e : EscapeSequence) : Prop where
  escape : e.escape.text = "\\"
  opens : e.escape.openSpan = some .escape
  closes : e.code.closeSpan = some .escape
  decodes : ∃ c, e.code.text = String.singleton c ∧ decode c = e.cooked

theorem EscapeSequence.check_eq_ok_iff {e : EscapeSequence} : e.check = .ok () ↔ e.Rules := by
  have hrules : e.Rules ↔ e.escape.text = "\\" ∧ e.escape.openSpan = some .escape
      ∧ e.code.closeSpan = some .escape ∧ ∃ c, e.code.char? = some c ∧ decode c = e.cooked := by
    simp only [Token.char?_eq_some_iff]
    exact ⟨fun ⟨h, h', h'', hc⟩ => ⟨h, h', h'', hc⟩, fun ⟨h, h', h'', hc⟩ => ⟨h, h', h'', hc⟩⟩
  unfold check
  rw [hrules, bind_unit_eq_ok_iff, bind_unit_eq_ok_iff, bind_unit_eq_ok_iff,
    Token.checkText_eq_ok_iff, require_eq_ok_iff, require_eq_ok_iff]
  cases e.code.char? <;> simp [require_eq_ok_iff]

theorem EscapeSequence.ofParts_eq_ok_iff {cooked : Char} {escape code : Token}
    {e : EscapeSequence} :
    ofParts cooked escape code = .ok e ↔ ⟨cooked, escape, code⟩ = e ∧ e.Rules :=
  checked_eq_ok_iff check_eq_ok_iff

structure WordCharacterSet.Rules (s : WordCharacterSet) : Prop where
  escape : s.escapeToken.text = "\\"
  value : s.value.text = "w" ∨ s.value.text = "W"

theorem WordCharacterSet.check_eq_ok_iff {s : WordCharacterSet} : s.check = .ok () ↔ s.Rules := by
  unfold check
  rw [bind_unit_eq_ok_iff, Token.checkText_eq_ok_iff, require_eq_ok_iff]
  exact ⟨fun ⟨h, h'⟩ => ⟨h, h'⟩, fun h => ⟨h.escape, h.value⟩⟩

theorem WordCharacterSet.ofParts_eq_ok_iff {escapeToken value : Token} {s : WordCharacterSet} :
    ofParts escapeToken value = .ok s ↔ ⟨escapeToken, value⟩ = s ∧ s.Rules :=
  checked_eq_ok_iff check_eq_ok_iff

structure Gap.Rules (g : Gap) : Prop where
  escape : g.escapeToken.text = "\\"
  value : g.value.text = "g"

theorem Gap.check_eq_ok_iff {g : Gap} : g.check = .ok () ↔ g.Rules := by
  unfold check
  rw [bind_unit_eq_ok_iff, Token.checkText_eq_ok_iff, Token.checkText_eq_ok_iff]
  exact ⟨fun ⟨h, h'⟩ => ⟨h, h'⟩, fun h => ⟨h.escape, h.value⟩⟩

theorem Gap.ofParts_eq_ok_iff {escapeToken value : Token} {g : Gap} :
    ofParts escapeToken value = .ok g ↔ ⟨escapeToken, value⟩ = g ∧ g.Rules :=
  checked_eq_ok_iff check_eq_ok_iff

def CharacterClassRange.Rules (r : CharacterClassRange) : Prop := r.sigilToken.text = "-"

theorem CharacterClassRange.check_eq_ok_iff {r : CharacterClassRange} :
    r.check = .ok () ↔ r.Rules :=
  Token.checkText_eq_ok_iff

theorem CharacterClassRange.ofParts_eq_ok_iff {min max : Character} {sigilToken : Token}
    {r : CharacterClassRange} :
    ofParts min sigilToken max = .ok r ↔ ⟨min, sigilToken, max⟩ = r ∧ r.Rules :=
  checked_eq_ok_iff check_eq_ok_iff

structure CharacterClass.Rules (c : CharacterClass) : Prop where
  opens : c.openToken.Opens "[" ']' .characterClass
  closes : c.closeToken.Balances "]"
  negates : ∀ t ∈ c.negateToken, t.text = "^"

theorem CharacterClass.check_eq_ok_iff {c : CharacterClass} : c.check = .ok () ↔ c.Rules := by
  have hrules : c.Rules ↔ c.openToken.Opens "[" ']' .characterClass ∧ c.closeToken.Balances "]"
      ∧ ∀ t ∈ c.negateToken, t.text = "^" :=
    ⟨fun ⟨h, h', h''⟩ => ⟨h, h', h''⟩, fun ⟨h, h', h''⟩ => ⟨h, h', h''⟩⟩
  unfold check
  rw [hrules, bind_unit_eq_ok_iff, bind_unit_eq_ok_iff, Token.checkOpening_eq_ok_iff,
    Token.checkBalancing_eq_ok_iff]
  cases c.negateToken <;> simp [Token.checkText_eq_ok_iff]

theorem CharacterClass.ofParts_eq_ok_iff {openToken closeToken : Token} {negateToken : Option Token}
    {elements : List ClassElement} {c : CharacterClass} :
    ofParts openToken negateToken elements closeToken = .ok c
      ↔ ⟨openToken, negateToken, elements, closeToken⟩ = c ∧ c.Rules :=
  checked_eq_ok_iff check_eq_ok_iff

structure Braces.Rules (b : Braces) : Prop where
  opens : b.openToken.Opens "\x7b" '}' .quantifier
  closes : b.closeToken.Balances "\x7d"
  separates : ∀ t ∈ b.separatorToken, t.text = ","
  maxBehindSeparator : b.maxToken.isSome → b.separatorToken.isSome
  min : (Text.readNumber? b.minToken.text).isSome
  max : ∀ t ∈ b.maxToken, (Text.readNumber? t.text).isSome

theorem Braces.check_eq_ok_iff {b : Braces} : b.check = .ok () ↔ b.Rules := by
  have hrules : b.Rules ↔ b.openToken.Opens "\x7b" '}' .quantifier ∧ b.closeToken.Balances "\x7d"
      ∧ (∀ t ∈ b.separatorToken, t.text = ",") ∧ (b.maxToken.isSome → b.separatorToken.isSome)
      ∧ (Text.readNumber? b.minToken.text).isSome
      ∧ ∀ t ∈ b.maxToken, (Text.readNumber? t.text).isSome :=
    ⟨fun ⟨h₁, h₂, h₃, h₄, h₅, h₆⟩ => ⟨h₁, h₂, h₃, h₄, h₅, h₆⟩,
      fun ⟨h₁, h₂, h₃, h₄, h₅, h₆⟩ => ⟨h₁, h₂, h₃, h₄, h₅, h₆⟩⟩
  unfold check checkNumber
  rw [hrules, bind_unit_eq_ok_iff, bind_unit_eq_ok_iff, Token.checkOpening_eq_ok_iff,
    Token.checkBalancing_eq_ok_iff]
  cases b.separatorToken <;> cases b.maxToken <;>
    simp [bind_unit_eq_ok_iff, Token.checkText_eq_ok_iff, require_eq_ok_iff]

theorem Braces.ofParts_eq_ok_iff {openToken minToken closeToken : Token}
    {separatorToken maxToken : Option Token} {b : Braces} :
    ofParts openToken minToken separatorToken maxToken closeToken = .ok b
      ↔ ⟨openToken, minToken, separatorToken, maxToken, closeToken⟩ = b ∧ b.Rules :=
  checked_eq_ok_iff check_eq_ok_iff

theorem lt_of_readNumber? {s : String} {n : Nat} (h : Text.readNumber? s = some n) :
    n < Text.numberLimit := by
  simp only [Text.readNumber?] at h
  split at h
  · rename_i hread
    rw [← Option.some.inj h]
    exact hread.2.2
  · cases h

/-- The numbers that a sigil spells have 32 bits. -/
theorem Sigil.lt_of_bounds? {s : Sigil} {min : Nat} {max : Bound}
    (h : s.bounds? = some (min, max)) :
    min < Text.numberLimit ∧ ∀ n, max = .finite n → n < Text.numberLimit := by
  cases s with
  | token t =>
    change tokenBounds? t.text = _ at h
    unfold tokenBounds? at h
    split at h
    · cases h
      exact ⟨by decide, nofun⟩
    split at h
    · cases h
      exact ⟨by decide, nofun⟩
    split at h
    · cases h
      exact ⟨by decide, fun n hn => Bound.finite.inj hn ▸ by decide⟩
    · cases h
  | braces b =>
    obtain ⟨least, hleast, h⟩ := Option.bind_eq_some_iff.1 h
    have hlt := lt_of_readNumber? hleast
    split at h
    · cases h
      exact ⟨hlt, fun n hn => Bound.finite.inj hn ▸ hlt⟩
    · cases h
      exact ⟨hlt, nofun⟩
    · obtain ⟨most, hmost, h⟩ := Option.bind_eq_some_iff.1 h
      cases h
      exact ⟨hlt, fun n hn => Bound.finite.inj hn ▸ lt_of_readNumber? hmost⟩

structure Quantifier.Rules (q : Quantifier) : Prop where
  ordered : q.max.allows q.min = true
  spelt : q.sigil.bounds? = some (q.min, q.max)

theorem Quantifier.check_eq_ok_iff {q : Quantifier} : q.check = .ok () ↔ q.Rules := by
  unfold check
  rw [bind_unit_eq_ok_iff, require_eq_ok_iff, require_eq_ok_iff]
  exact ⟨fun ⟨h, h'⟩ => ⟨h, h'⟩, fun h => ⟨h.ordered, h.spelt⟩⟩

/-- A quantifier is not repeated again. -/
theorem Quantifier.ofParts_eq_ok_iff {element : Element} {sigil : Sigil} {min : Nat} {max : Bound}
    {q : Quantifier} : ofParts element sigil min max = .ok q
      ↔ ∃ atom, element = .atom atom ∧ ⟨atom, sigil, min, max⟩ = q ∧ q.Rules := by
  cases element with
  | atom atom =>
    have h : ofParts (.atom atom) sigil min max = .ok q
        ↔ ⟨atom, sigil, min, max⟩ = q ∧ q.Rules :=
      checked_eq_ok_iff check_eq_ok_iff
    simp [h]
  | quantifier inner =>
    unfold ofParts
    rw [bind_unit_eq_ok_iff]
    exact ⟨fun h => (nomatch h.2), fun ⟨_, h, _⟩ => nomatch h⟩

/-- Each token is the letter of a flag, in this order. -/
def Flags.Name (tokens : List Token) (flags : List Flag) : Prop :=
  tokens.map Token.text = flags.map fun flag => String.singleton flag.letter

/-- The tokens name different flags, and these are the ones that are on. -/
def Flags.Rules (f : Flags) : Prop :=
  ∃ flags : List Flag, flags.Nodup ∧ Name f.tokens flags
    ∧ ∀ flag, f.set.has flag = true ↔ flag ∈ flags

theorem FlagSet.has_foldl_insert {flags : List Flag} {seen : FlagSet} {flag : Flag} :
    (flags.foldl .insert seen).has flag = true ↔ seen.has flag = true ∨ flag ∈ flags := by
  induction flags generalizing seen with
  | nil => simp
  | cons f fs ih =>
    rw [List.foldl_cons, ih, has_insert, Bool.or_eq_true, beq_iff_eq, List.mem_cons, or_assoc,
      eq_comm (a := f)]

namespace Flags

variable {t : Token} {tokens : List Token} {flag : Flag} {flags : List Flag} {seen set : FlagSet}

theorem Name.cons_iff : Name (t :: tokens) (flag :: flags)
    ↔ t.char? = some flag.letter ∧ Name tokens flags := by
  rw [Token.char?_eq_some_iff]
  exact List.cons_eq_cons

/-- Tokens whose flags can be turned on name flags. -/
theorem exists_name_of_addAll (h : addAll seen tokens = .ok set) : ∃ flags, Name tokens flags := by
  induction tokens generalizing seen with
  | nil => exact ⟨[], rfl⟩
  | cons t ts ih =>
    unfold addAll at h
    split at h
    · cases h
    rename_i flag hflag
    split at h
    · cases h
    obtain ⟨flags, hflags⟩ := ih h
    obtain ⟨c, hchar, hc⟩ := Option.bind_eq_some_iff.1 hflag
    rw [← Flag.letter_of_ofLetter? hc] at hchar
    exact ⟨flag :: flags, Name.cons_iff.2 ⟨hchar, hflags⟩⟩

theorem addAll_eq_ok_iff (h : Name tokens flags) : addAll seen tokens = .ok set ↔
    flags.Nodup ∧ (∀ flag ∈ flags, seen.has flag = false) ∧ flags.foldl .insert seen = set := by
  induction flags generalizing tokens seen with
  | nil =>
    obtain rfl : tokens = [] := List.map_eq_nil_iff.1 h
    simp [addAll]
  | cons f fs ih =>
    cases tokens with
    | nil => cases h
    | cons t ts =>
      obtain ⟨hchar, hname⟩ := Name.cons_iff.1 h
      simp only [addAll, hchar, Option.bind_some, Flag.ofLetter?_letter, List.nodup_cons,
        List.forall_mem_cons, List.foldl_cons]
      cases hseen : seen.has f with
      | true => simp
      | false =>
        simp only [Bool.false_eq_true, if_false, ih hname, FlagSet.has_insert, Bool.or_eq_false_iff,
          beq_eq_false_iff_ne, true_and]
        constructor
        · intro hok
          obtain ⟨hnodup, hunseen, hset⟩ := hok
          exact ⟨⟨fun hmem => (hunseen f hmem).2 rfl, hnodup⟩, fun g hg => (hunseen g hg).1, hset⟩
        · intro hok
          obtain ⟨⟨hnew, hnodup⟩, hunseen, hset⟩ := hok
          exact ⟨hnodup, fun g hg => ⟨hunseen g hg, fun heq => hnew (heq ▸ hg)⟩, hset⟩

theorem check_eq_ok_iff {f : Flags} : f.check = .ok () ↔ f.Rules := by
  have hcheck : f.check = .ok () ↔ ∃ set, addAll .none f.tokens = .ok set
      ∧ ∀ flag, set.has flag = f.set.has flag := by
    unfold check
    cases addAll .none f.tokens with
    | error cause => simp [Bind.bind, Except.bind]
    | ok set =>
      have hall (flag : Flag) : flag ∈ Flag.all := by cases flag <;> decide
      have hnone : (∀ flag, set.has flag = f.set.has flag)
          ↔ Flag.all.find? (fun flag => set.has flag != f.set.has flag) = none := by
        simp [List.find?_eq_none, hall]
      simp only [Bind.bind, Except.bind, Except.ok.injEq, exists_eq_left', hnone]
      cases Flag.all.find? fun flag => set.has flag != f.set.has flag <;> simp
  rw [hcheck]
  constructor
  · intro h
    obtain ⟨set, hset, hagree⟩ := h
    obtain ⟨flags, hname⟩ := exists_name_of_addAll hset
    obtain ⟨hnodup, -, rfl⟩ := (addAll_eq_ok_iff hname).1 hset
    refine ⟨flags, hnodup, hname, fun flag => ?_⟩
    rw [← hagree flag, FlagSet.has_foldl_insert]
    simp
  · intro h
    obtain ⟨flags, hnodup, hname, hset⟩ := h
    refine ⟨_, (addAll_eq_ok_iff hname).2 ⟨hnodup, by simp, rfl⟩, fun flag => ?_⟩
    rw [Bool.eq_iff_iff, FlagSet.has_foldl_insert, hset flag]
    simp

end Flags

structure Pattern.Rules (p : Pattern) : Prop where
  count : p.alternatives.length = p.separatorTokens.length + 1
  separates : ∀ t ∈ p.separatorTokens, t.text = "|"
  opens : p.openToken.Opens "/" '/' .pattern
  closes : p.closeToken.Balances "/"

theorem Pattern.checkSeparators_eq_ok_iff {tokens : List Token} :
    checkSeparators tokens = .ok () ↔ ∀ t ∈ tokens, t.text = "|" := by
  induction tokens with
  | nil => simp [checkSeparators]
  | cons t ts ih =>
    rw [checkSeparators, bind_unit_eq_ok_iff, Token.checkText_eq_ok_iff, ih, List.forall_mem_cons]

theorem Pattern.check_eq_ok_iff {p : Pattern} : p.check = .ok () ↔ p.Rules := by
  unfold check
  rw [bind_unit_eq_ok_iff, bind_unit_eq_ok_iff, checkSeparators_eq_ok_iff,
    Token.checkOpening_eq_ok_iff, Token.checkBalancing_eq_ok_iff]
  have hcount : p.alternatives.length = p.separatorTokens.length + 1 := by
    simp [alternatives, separatorTokens]
  exact ⟨fun ⟨h, h', h''⟩ => ⟨hcount, h, h', h''⟩, fun h => ⟨h.separates, h.opens, h.closes⟩⟩

theorem Pattern.ofParts_eq_ok_iff {openToken closeToken : Token} {alternatives : List Alternative}
    {separatorTokens : List Token} {flags : Flags} {p : Pattern} :
    ofParts openToken alternatives separatorTokens closeToken flags = .ok p
      ↔ p.openToken = openToken ∧ p.alternatives = alternatives
        ∧ p.separatorTokens = separatorTokens ∧ p.closeToken = closeToken ∧ p.flags = flags
        ∧ p.Rules := by
  cases alternatives with
  | nil => exact ⟨nofun, fun h => nomatch h.2.1⟩
  | cons first others =>
    have hchecked {rest : List (Token × Alternative)} :
        (do let p : Pattern := ⟨openToken, first, rest, closeToken, flags⟩; p.check; pure p) = .ok p
          ↔ ⟨openToken, first, rest, closeToken, flags⟩ = p ∧ p.Rules :=
      checked_eq_ok_iff check_eq_ok_iff
    unfold ofParts
    rw [bind_unit_eq_ok_iff, require_eq_ok_iff, hchecked]
    constructor
    · intro h
      obtain ⟨hlength, rfl, hrules⟩ := h
      refine ⟨rfl, ?_, ?_, rfl, rfl, hrules⟩
      · rw [Pattern.alternatives, List.map_snd_zip (Nat.le_of_eq hlength.symm)]
      · rw [Pattern.separatorTokens, List.map_fst_zip (Nat.le_of_eq hlength)]
    · intro h
      obtain ⟨rfl, halternatives, rfl, rfl, rfl, hrules⟩ := h
      obtain ⟨rfl, rfl⟩ := List.cons.inj halternatives
      refine ⟨by simp [Pattern.separatorTokens], ?_, hrules⟩
      rw [Pattern.separatorTokens, ← List.unzip_fst, ← List.unzip_snd, List.zip_unzip]

/-! ## Built values -/

structure EscapeSequence.Built (e : EscapeSequence) : Prop where
  escape : e.escape.Rules
  code : e.code.Rules
  rules : e.Rules

/-- Any token may be a literal. -/
def Character.Built : Character → Prop
  | literal t => t.Rules
  | escaped e => e.Built

structure WordCharacterSet.Built (s : WordCharacterSet) : Prop where
  escapeToken : s.escapeToken.Rules
  value : s.value.Rules
  rules : s.Rules

structure Gap.Built (g : Gap) : Prop where
  escapeToken : g.escapeToken.Rules
  value : g.value.Rules
  rules : g.Rules

structure CharacterClassRange.Built (r : CharacterClassRange) : Prop where
  min : r.min.Built
  sigilToken : r.sigilToken.Rules
  max : r.max.Built
  rules : r.Rules

def ClassElement.Built : ClassElement → Prop
  | character c => c.Built
  | range r => r.Built
  | wordCharacterSet s => s.Built

structure CharacterClass.Built (c : CharacterClass) : Prop where
  openToken : c.openToken.Rules
  negateToken : ∀ t ∈ c.negateToken, t.Rules
  elements : ∀ e ∈ c.elements, e.Built
  closeToken : c.closeToken.Rules
  rules : c.Rules

structure Braces.Built (b : Braces) : Prop where
  openToken : b.openToken.Rules
  minToken : b.minToken.Rules
  separatorToken : ∀ t ∈ b.separatorToken, t.Rules
  maxToken : ∀ t ∈ b.maxToken, t.Rules
  closeToken : b.closeToken.Rules
  rules : b.Rules

def Sigil.Built : Sigil → Prop
  | token t => t.Rules
  | braces b => b.Built

def Atom.Built : Atom → Prop
  | character c => c.Built
  | characterClass c => c.Built
  | wordCharacterSet s => s.Built
  | gap g => g.Built

structure Quantifier.Built (q : Quantifier) : Prop where
  atom : q.atom.Built
  sigil : q.sigil.Built
  rules : q.Rules

def Element.Built : Element → Prop
  | atom a => a.Built
  | quantifier q => q.Built

def Alternative.Built (a : Alternative) : Prop := ∀ e ∈ a.elements, e.Built

structure Flags.Built (f : Flags) : Prop where
  tokens : ∀ t ∈ f.tokens, t.Rules
  rules : f.Rules

structure Pattern.Built (p : Pattern) : Prop where
  openToken : p.openToken.Rules
  alternatives : ∀ a ∈ p.alternatives, a.Built
  separatorTokens : ∀ t ∈ p.separatorTokens, t.Rules
  closeToken : p.closeToken.Rules
  flags : p.flags.Built
  rules : p.Rules

def Node.Built : Node → Prop
  | pattern p => p.Built
  | alternative a => a.Built
  | character c => c.Built
  | characterClass c => c.Built
  | characterClassRange r => r.Built
  | quantifier q => q.Built
  | flags f => f.Built
  | escapeSequence e => e.Built
  | wordCharacterSet s => s.Built
  | gap g => g.Built

/-! ## Characters of a node -/

def CharacterClassRange.characters (r : CharacterClassRange) : List Character := [r.min, r.max]

def ClassElement.characters : ClassElement → List Character
  | character c => [c]
  | range r => r.characters
  | wordCharacterSet _ => []

def CharacterClass.characters (c : CharacterClass) : List Character :=
  c.elements.flatMap ClassElement.characters

def Atom.characters : Atom → List Character
  | character c => [c]
  | characterClass c => c.characters
  | wordCharacterSet _ | gap _ => []

def Quantifier.characters (q : Quantifier) : List Character := q.atom.characters

def Element.characters : Element → List Character
  | atom a => a.characters
  | quantifier q => q.characters

def Alternative.characters (a : Alternative) : List Character :=
  a.elements.flatMap Element.characters

def Pattern.characters (p : Pattern) : List Character :=
  p.alternatives.flatMap Alternative.characters

/-- The characters anywhere in the node. -/
def Node.characters : Node → List Character
  | pattern p => p.characters
  | alternative a => a.characters
  | character c => [c]
  | characterClass c => c.characters
  | characterClassRange r => r.characters
  | quantifier q => q.characters
  | flags _ | escapeSequence _ | wordCharacterSet _ | gap _ => []

/-- Each literal among the characters is one character of category `character`. -/
def Character.AllKeep (cs : List Character) : Prop := ∀ c ∈ cs, c.Rules

theorem Character.allKeep_nil : AllKeep [] := by simp [AllKeep]

theorem Character.allKeep_singleton {c : Character} : AllKeep [c] ↔ c.Rules := by simp [AllKeep]

theorem Character.allKeep_iff {cs : List Character} : AllKeep cs ↔
    ∀ t, .literal t ∈ cs → t.category = .character ∧ ∃ c, t.text = String.singleton c := by
  constructor
  · intro h t ht
    exact h (.literal t) ht
  · intro h c hc
    cases c with
    | literal t => exact h t hc
    | escaped e => trivial

theorem Character.allKeep_flatMap {α : Type} {f : α → List Character} {as : List α} :
    AllKeep (as.flatMap f) ↔ ∀ a ∈ as, AllKeep (f a) := by
  simp only [AllKeep, List.mem_flatMap]
  exact ⟨fun h a ha c hc => h c ⟨a, ha, hc⟩, fun h c ⟨a, ha, hc⟩ => h a ha c hc⟩

/-- The rules hold of the node and of all that is in it. -/
structure Node.Sound (n : Node) : Prop where
  built : n.Built
  literals : Character.AllKeep n.characters

end RegexLiteral
