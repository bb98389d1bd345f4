import RegexLiteral.Proofs.Agrees
import RegexLiteral.Proofs.Faultless
import RegexLiteral.Proofs.Fuel

/-!
# The parser sees the types of embedded nodes only

No parser looks at more of a node that is to be put in than its type. So two templates with the same
source and the same cuts, whose nodes are of the same types, fail with the same error, or are read
as trees that are the same but for the nodes (`Template.parse_alike`).
-/

namespace RegexLiteral

open Likeness

namespace Parser

variable {α : Type} {R : Likeness α} {ns ms : List Node}

theorem Blind.alike {p : Parser α} (hp : Blind p) (hR : ∀ a, R [] [] a a) : Agrees p p R :=
  hp.mono fun _ _ _ _ h => by
    cases h
    exact hR _

/-- What a node is checked for may not depend on what was put into it. -/
theorem agrees_checked {a b : α} (check : Except InvalidNode Unit) (h : R [] [] a b) :
    Agrees (sound do check; return a) (sound do check; return b) R := by
  cases check with
  | ok => exact agrees_pure h
  | error cause => exact agrees_fault _

/-! ## Literal characters, escapes and embedded nodes -/

theorem blind_literal : Blind literal := (blind_token _).bind fun _ => blind_sound _

theorem blind_escapeCode : Blind escapeCode := by
  refine (blind_expect _).bind fun _ => blind_get (fun c => ?_) fun _ _ => rfl
  refine blind_consume.bind fun _ => (blind_isAt _).bind fun b => ?_
  split
  · exact agrees_fail _
  refine (blind_isAt _).bind fun b => ?_
  split
  · exact agrees_fail _
  refine blind_get (fun c => ?_) fun _ _ => rfl
  split
  · exact agrees_failBecause _ _
  · exact blind_consume.bind fun _ => blind_pure _

theorem blind_escapeTokens (code : Char) : Blind (escapeTokens code) :=
  (blind_newToken _ _).bind fun _ => (blind_newToken _ _).bind fun _ => blind_pure _

theorem blind_escapedCharacter (code : Char) : Blind (escapedCharacter code) :=
  (blind_escapeTokens code).bind fun _ => (blind_sound _).bind fun _ => blind_pure _

theorem blind_wordSet (code : Char) : Blind (wordSet code) :=
  (blind_escapeTokens code).bind fun _ => blind_sound _

theorem blind_gap (code : Char) : Blind (gap code) :=
  (blind_escapeTokens code).bind fun _ => blind_sound _

theorem blind_escape : Blind escape := by
  refine blind_escapeCode.bind fun code => ?_
  split
  · exact (blind_wordSet code).bind fun _ => blind_pure _
  · split
    · exact (blind_gap code).bind fun _ => blind_pure _
    · exact (blind_escapedCharacter code).bind fun _ => blind_pure _

theorem blind_classEscape : Blind classEscape := by
  refine blind_escapeCode.bind fun code => ?_
  split
  · exact (blind_wordSet code).bind fun _ => blind_pure _
  · exact (blind_escapedCharacter code).bind fun _ => blind_pure _

theorem agrees_splice {family? : Node → Option α} (h : Typewise family? R)
    (cause : NodeType → Cause) : Agrees (splice family? cause) (splice family? cause) R := by
  refine agrees_get fun c ms _ => agrees_substitution.bind fun _ _ n m hnm => ?_
  cases hnm with
  | mk ht =>
    rcases h n m ht with ⟨a, b, hn, hm, hab⟩ | ⟨hn, hm⟩
    · rw [hn, hm]
      exact agrees_pure hab
    · rw [hn, hm, ht]
      exact agrees_failAt _ _

/-! ## Classes -/

theorem nextIsCharacter_congr (h : SameTypes ns ms) : nextIsCharacter ns = nextIsCharacter ms := by
  cases ns with
  | nil => rw [h.eq_nil]
  | cons n ns =>
    obtain ⟨m, ms, rfl, ht, -⟩ := h.exists_cons
    rw [nextIsCharacter, nextIsCharacter, ht]

theorem blind_rangeEndFollows : Blind rangeEndFollows := by
  refine (blind_look 1).bind fun k => ?_
  split
  case h_4 => exact blind_get (fun _ => blind_pure _) fun _ _ => rfl
  case h_5 =>
    refine agrees_get fun c ms hc => ?_
    rw [Cursor.substitutions_withNodes, nextIsCharacter_congr hc]
    exact blind_pure _
  all_goals exact blind_pure _

theorem blind_isAtRange : Blind isAtRange := by
  refine (blind_isAt _).bind fun b => ?_
  split
  · exact blind_rangeEndFollows
  · exact blind_pure _

theorem agrees_classAtom : Agrees classAtom classAtom ClassElement.Alike := by
  refine (blind_look 0).agrees fun k => ?_
  split
  · exact blind_classEscape.alike .same
  · exact agrees_splice typewise_classElement? _
  · exact (blind_literal.map _).alike .same

theorem agrees_rangeEnd : Agrees rangeEnd rangeEnd fun ns ms c d =>
    ClassElement.Alike ns ms (.character c) (.character d) := by
  refine agrees_get fun c ms _ => agrees_classAtom.bind fun _ _ e f h => ?_
  have ht := h.type_eq
  cases e <;> cases f <;> simp only [ClassElement.type, reduceCtorEq] at ht
  case character =>
    refine agrees_pure ?_
    simpa [after] using h
  all_goals exact agrees_failAt _ _

theorem agrees_rangeFrom {a b : Character}
    (h : ClassElement.Alike ns ms (.character a) (.character b)) :
    Agrees (rangeFrom a) (rangeFrom b) (ClassElement.Alike.after ns ms) := by
  refine blind_isAtRange.agrees fun isRange => ?_
  split
  · refine (blind_token _).agrees fun sigil => agrees_rangeEnd.bind fun ns' ms' c d hcd => ?_
    refine (agrees_checked (CharacterClassRange.check ⟨a, sigil, c⟩) ?_).bind_pure
    simpa [after] using .range sigil h hcd
  · refine agrees_pure ?_
    simpa [after] using h

theorem agrees_classElement : Agrees classElement classElement ClassElement.Alike := by
  refine agrees_classAtom.bind fun _ _ e f h => ?_
  have ht := h.type_eq
  cases e <;> cases f <;> simp only [ClassElement.type, reduceCtorEq] at ht
  case character => exact agrees_rangeFrom h
  all_goals
    refine agrees_pure ?_
    simpa [after] using h

theorem agrees_nextClassElement :
    Agrees nextClassElement nextClassElement (Maybe ClassElement.Alike) := by
  refine (blind_look 0).agrees fun k => ?_
  split
  · exact agrees_pure .none
  · exact agrees_failUnclosed _ _
  · exact Agrees.map (agrees_classElement.mono fun _ _ _ _ h => .some h)

theorem blind_negation : Blind negation := by
  refine (blind_isAt _).bind fun b => ?_
  split
  · exact (blind_token _).map _
  · exact blind_pure _

theorem agrees_characterClass : Agrees characterClass characterClass CharacterClass.Alike := by
  have hbody (openToken : Token) : Agrees classBody classBody fun ns ms body body' =>
      body.1 = body'.1 ∧ Row ClassElement.Alike ns ms body.2 body'.2 :=
    blind_negation.agrees fun negateToken =>
      (agrees_nextClassElement.collect.mono fun _ _ _ _ h => ⟨rfl, h⟩).bind_pure
  refine (blind_expect _).agrees fun _ => (blind_openDelimiter _).agrees fun _ =>
    (blind_token _).agrees fun openToken => (hbody openToken).bind fun ns ms body body' h => ?_
  obtain ⟨negateToken, es⟩ := body
  obtain ⟨negateToken', fs⟩ := body'
  obtain ⟨rfl, hrow⟩ := h
  refine (blind_token _).agrees fun closeToken => blind_closeDelimiter.agrees fun _ => ?_
  refine agrees_checked (CharacterClass.check ⟨openToken.opening ']' .characterClass, negateToken,
    es, closeToken.balancing⟩) ?_
  simpa [after] using .mk _ _ _ hrow

/-! ## Repetition -/

theorem blind_isAtSigil : Blind isAtSigil := by
  refine (blind_isAtAny _).bind fun b => ?_
  split
  · exact blind_pure _
  · exact blind_get (fun _ => blind_pure _) fun _ _ => rfl

theorem blind_number : Blind number := by
  have hdigit : Blind digit := by
    refine (blind_isAt _).bind fun b => ?_
    split
    · exact blind_consume.map _
    · exact blind_pure _
  refine blind_get (fun c => hdigit.collect.bind fun digits => (blind_range _ _).bind
    fun span => (blind_slice span).bind fun text => ?_) fun _ _ => rfl
  split
  · exact agrees_failAt _ _
  · exact (blind_newToken _ _).bind fun _ => blind_pure _

theorem blind_upperBound (min : Nat) : Blind (upperBound min) := by
  refine (blind_isAt _).bind fun b => ?_
  split
  · refine (blind_token _).bind fun _ => (blind_isAt _).bind fun b => ?_
    split
    · exact blind_number.bind fun _ => blind_pure _
    · exact blind_pure _
  · exact blind_pure _

theorem blind_braces : Blind braces := by
  refine blind_get (fun c => (blind_token _).bind fun _ => blind_number.bind fun n =>
    (blind_upperBound n.2).bind fun u => ?_) fun _ _ => rfl
  refine blind_get (fun c => (blind_token _).bind fun _ => ?_) fun _ _ => rfl
  split
  · exact (blind_sound _).bind fun _ => blind_pure _
  · exact (blind_range _ _).bind fun _ => agrees_failAt _ _

theorem blind_sigil : Blind sigil := by
  have hsign : Blind signBounds := by
    refine (blind_isAtAny _).bind fun b => ?_
    split
    · exact blind_get (fun _ => blind_pure _) fun _ _ => rfl
    · exact blind_pure _
  refine (blind_isAt _).bind fun b => ?_
  split
  · exact blind_braces
  refine hsign.bind fun r => ?_
  split
  · exact agrees_fail _
  · exact (blind_token _).bind fun _ => blind_pure _

/-- A quantifier is refused behind a quantifier, whatever is in it, and an atom is repeated. -/
theorem agrees_repeated {e f : Element} (h : Element.Alike ns ms e f) :
    Agrees (repeated e) (repeated f) (Element.Alike.after ns ms) := by
  have hsame : Element.Alike.after ns ms [] [] e f := by simpa [after] using h
  refine blind_isAtSigil.agrees fun atSigil => ?_
  split
  case isFalse => exact agrees_pure hsame
  cases h with
  | quantifier q r => exact agrees_fail _
  | repeated h sigil min max => exact agrees_fail _
  | @atom _ _ a b h =>
    refine blind_sigil.agrees fun read => ?_
    obtain ⟨sigil, min, max⟩ := read
    refine (blind_isAt _).agrees fun lazy => ?_
    split
    · exact agrees_fail _
    refine blind_isAtSigil.agrees fun stacked => ?_
    split
    · exact agrees_fail _
    · refine (agrees_checked (Quantifier.check ⟨a, sigil, min, max⟩) ?_).bind_pure
      simpa [after] using .repeated h sigil min max

theorem agrees_element : Agrees element element Element.Alike := by
  refine (blind_look 0).agrees fun k => ?_
  split
  · exact (agrees_characterClass.mono fun _ _ _ _ h => .atom (.charClass h)).bind_pure
  · exact (blind_escape.alike fun a => .atom (.same a)).bind_pure
  · exact agrees_splice typewise_element? _
  refine blind_isAtSigil.agrees fun b => ?_
  split
  · exact agrees_fail _
  · exact (blind_literal.alike fun c => .atom (.same (.character c))).bind_pure

/-! ## Literals -/

theorem agrees_alternative : Agrees alternative alternative Alternative.Alike := by
  have hnext : Agrees nextElement nextElement (Maybe Element.Alike) := by
    refine (blind_isAtAny _).agrees fun b => ?_
    split
    · exact agrees_pure .none
    · refine agrees_element.bind fun ns ms e f h => ?_
      exact Agrees.map ((agrees_repeated h).mono fun _ _ _ _ h' => .some h')
  exact (hnext.collect.mono fun _ _ _ _ h => .mk h).bind_pure

theorem agrees_nextAlternative :
    Agrees nextAlternative nextAlternative (Maybe Alternative.AlikeBehind) := by
  refine (blind_isAt _).agrees fun b => ?_
  split
  · refine (blind_token _).agrees fun separator => ?_
    exact (agrees_alternative.mono fun _ _ _ _ h => .some (.mk separator h)).bind_pure
  · exact agrees_pure .none

theorem blind_flagTokens : ∀ (n : Nat) (seen : FlagSet), Blind (flagTokens n seen)
  | 0, _ => agrees_fault _
  | n + 1, seen => by
    refine (blind_look 0).bind fun k => ?_
    split
    · exact blind_pure _
    · exact agrees_fail _
    · exact agrees_fail _
    refine blind_get (fun c => ?_) fun _ _ => rfl
    split
    · exact agrees_fail _
    split
    · exact agrees_fail _
    · exact (blind_token _).bind fun _ => (blind_flagTokens n _).bind fun _ => blind_pure _

theorem agrees_flags : Agrees flags flags Flags.Alike := by
  refine (blind_isAt _).agrees fun b => ?_
  split
  · refine (agrees_splice typewise_flags? _).bind fun ns ms f g h => ?_
    refine (blind_isAt _).agrees fun b => ?_
    split
    · refine agrees_pure ?_
      simpa [after] using h
    · exact agrees_fail _
  · refine Blind.alike (blind_get (fun c => ?_) fun _ _ => rfl) .same
    exact (blind_flagTokens _ _).bind fun _ => blind_sound _

theorem blind_openingSlash : Blind openingSlash := by
  refine (blind_look 0).bind fun k => ?_
  split
  · exact (blind_openDelimiter _).bind fun _ => blind_token _
  · exact agrees_fail _
  · exact agrees_fail _
  · exact agrees_fail _

theorem blind_closingSlash : Blind closingSlash := by
  refine (blind_isAt _).bind fun b => ?_
  split
  · exact (blind_token _).bind fun _ => blind_closeDelimiter.bind fun _ => blind_pure _
  · exact agrees_failUnclosed _ _

/-- Alternatives that are alike have the same separators. -/
theorem separators_eq {as bs : List (Token × Alternative)}
    (h : Row Alternative.AlikeBehind ns ms as bs) : as.map Prod.fst = bs.map Prod.fst := by
  induction h with
  | nil => rfl
  | cons h _ ih =>
    cases h
    rw [List.map_cons, List.map_cons, ih]

theorem Pattern.ofParts_rest (openToken closeToken : Token) (first : Alternative)
    (rest : List (Token × Alternative)) (flags : Flags) :
    Pattern.ofParts openToken (first :: rest.map Prod.snd) (rest.map Prod.fst) closeToken flags
      = do Pattern.check ⟨openToken, first, rest, closeToken, flags⟩
           return ⟨openToken, first, rest, closeToken, flags⟩ := by
  have hrequire : require ((rest.map Prod.fst).length = (rest.map Prod.snd).length)
      (.separatorCount (rest.map Prod.fst).length ((rest.map Prod.snd).length + 1)) = .ok () :=
    if_pos (by simp)
  unfold Pattern.ofParts
  dsimp only
  rw [hrequire, ← List.unzip_fst, ← List.unzip_snd, List.zip_unzip]
  rfl

theorem agrees_pattern : Agrees pattern pattern Pattern.Alike := by
  refine blind_openingSlash.agrees fun openToken => agrees_alternative.bind fun ns ms a b h =>
    agrees_nextAlternative.collect.bind fun ns' ms' as bs hs => blind_closingSlash.agrees
    fun closeToken => agrees_flags.bind fun ns'' ms'' f g hflags => ?_
  let opening := openToken.opening '/' .pattern
  have hcheck : Pattern.check ⟨opening, b, bs, closeToken.balancing, g⟩
      = Pattern.check ⟨opening, a, as, closeToken.balancing, f⟩ := by
    unfold Pattern.check
    rw [Pattern.separatorTokens, ← separators_eq hs]
    rfl
  rw [Pattern.ofParts_rest, Pattern.ofParts_rest, hcheck]
  refine agrees_checked _ ?_
  simpa [after] using .mk opening closeToken.balancing h hs hflags

theorem blind_finish : Blind finish := by
  refine (blind_expect _).bind fun _ => agrees_get fun c ms hc => ?_
  rw [Cursor.substitutions_withNodes]
  cases hn : c.substitutions with
  | nil =>
    rw [hn] at hc
    rw [hc.eq_nil]
    exact blind_pure _
  | cons n ns =>
    rw [hn] at hc
    obtain ⟨m, ms, rfl, -, -⟩ := hc.exists_cons
    exact agrees_failAt _ _

theorem agrees_finish {p : Parser α} (hp : Agrees p p R) :
    Agrees (do let a ← p; finish; return a) (do let a ← p; finish; return a) R := by
  refine hp.bind fun ns ms a b hab => blind_finish.agrees fun _ => agrees_pure ?_
  simpa [after] using hab

theorem agrees_production (production : Production) :
    Agrees production.parser production.parser Node.Alike := by
  cases production with
  | pattern => exact Agrees.map ((agrees_finish agrees_pattern).mono fun _ _ _ _ h => .pattern h)
  | flags => exact Agrees.map ((agrees_finish agrees_flags).mono fun _ _ _ _ h => .flags h)

/-! ## Nodes that are left -/

theorem nodes_of_finish {c c' : Cursor} (h : finish c = .ok () c') : c'.substitutions = [] := by
  obtain ⟨_, c₁, -, h⟩ := bind_eq_ok h
  rw [get_bind_apply] at h
  cases hn : c₁.substitutions with
  | nil =>
    rw [hn] at h
    cases h
    exact hn
  | cons n ns =>
    rw [hn] at h
    cases h

theorem nodes_of_production {production : Production} {n : Node} {c c' : Cursor}
    (h : production.parser c = .ok n c') : c'.substitutions = [] := by
  have hfinish {β : Type} (p : Parser β) (k : β → Node)
      (h : (k <$> (do let b ← p; finish; return b : Parser β)) c = .ok n c') :
      c'.substitutions = [] := by
    rw [map_eq_pure_bind] at h
    obtain ⟨b, c₁, h, hc'⟩ := bind_eq_ok h
    obtain ⟨b', c₂, -, h⟩ := bind_eq_ok h
    obtain ⟨_, c₃, h, hc₁⟩ := bind_eq_ok h
    cases hc'
    cases hc₁
    exact nodes_of_finish h
  cases production with
  | pattern => exact hfinish pattern _ h
  | flags => exact hfinish flags _ h

end Parser

namespace Template

open RegexLiteral.Parser

variable {t u : Template}

theorem segments_inj (hsource : t.source = u.source) (hcuts : t.boundaries = u.boundaries) :
    t.segments = u.segments := by
  have hspans : t.segmentSpans = u.segmentSpans := by
    rw [segmentSpans, segmentSpans, hsource, hcuts]
  have hslices : t.segments.map (fun s => some s.toList)
      = u.segments.map fun s => some s.toList := by
    rw [← slice?_segmentSpans, ← slice?_segmentSpans, hspans, hsource]
  refine (List.map_inj_right fun a b hab => ?_).1 hslices
  exact String.toList_inj.1 (Option.some.inj hab)

/-- Of the nodes that are put in, the parser looks at nothing but the types. Two templates of one
source, with the same cuts and with nodes of the same types, are refused with the same error, or
both are read, and then each tree has its nodes where the other has its own, and nothing else
differs. -/
theorem parse_alike (hsource : t.source = u.source) (hcuts : t.boundaries = u.boundaries)
    (htypes : t.substitutions.map Node.type = u.substitutions.map Node.type)
    (production : Production) (fuel : Option Nat) :
    (∃ e, t.parse production fuel = .error e ∧ u.parse production fuel = .error e)
      ∨ ∃ n m, t.parse production fuel = .ok n ∧ u.parse production fuel = .ok m
        ∧ Node.Alike t.substitutions u.substitutions n m := by
  have hsegments := segments_inj hsource hcuts
  have hcursor : u.cursor fuel = (t.cursor fuel).withNodes u.substitutions := by
    obtain ⟨hfirst, hlater⟩ := List.cons.inj hsegments
    unfold cursor lexemes Cursor.withNodes
    rw [hfirst, hlater, hsource]
  have hrun := agrees_production production (t.cursor fuel) u.substitutions htypes
  rw [← hcursor] at hrun
  have ht := t.parse_eq_ending production fuel
  have hu := u.parse_eq_ending production fuel
  unfold ending at ht hu
  generalize hp : production.parser (t.cursor fuel) = r,
    production.parser (u.cursor fuel) = r' at hrun ht hu
  cases hrun with
  | error e c d => exact .inl ⟨e, ht, hu⟩
  | @ok used used' rest n m c hns hms hrest h =>
    have hnil := nodes_of_production hp
    rw [hnil] at hns hrest
    obtain rfl := hrest.eq_nil
    rw [List.append_nil] at hns hms
    refine .inr ⟨n, m, ht, hu, ?_⟩
    rwa [show t.substitutions = used from hns, hms]

/-- An escape and a literal character begin a range in the same way, and neither of them is what the
flags can be. -/
theorem parse_alike_samples :
    (∃ n m, (⟨"/[", ["-z]+/"], [.character (.ofCode 'n')]⟩ : Template).parse .pattern none = .ok n
        ∧ (⟨"/[", ["-z]+/"], [.character (.literal (.ofChar .character 'a'))]⟩ : Template).parse
          .pattern none = .ok m
        ∧ Node.Alike [.character (.ofCode 'n')] [.character (.literal (.ofChar .character 'a'))]
          n m)
      ∧ ∃ e, (⟨"/a/", [""], [.character (.ofCode 'n')]⟩ : Template).parse .pattern none = .error e
        ∧ (⟨"/a/", [""], [.character (.literal (.ofChar .character 'a'))]⟩ : Template).parse
          .pattern none = .error e := by
  constructor
  · obtain ⟨k, hk⟩ : ∃ n, (⟨"/[", ["-z]+/"], [.character (.ofCode 'n')]⟩ : Template).parse .pattern
        none = .ok n := exists_of_isOk (by decide +kernel)
    have halike := parse_alike (t := ⟨"/[", ["-z]+/"], [.character (.ofCode 'n')]⟩)
      (u := ⟨"/[", ["-z]+/"], [.character (.literal (.ofChar .character 'a'))]⟩) rfl rfl rfl
      .pattern none
    rw [hk] at halike
    obtain ⟨e, he, -⟩ | h := halike
    · cases he
    · rwa [hk]
  · have hfails : ((⟨"/a/", [""], [.character (.ofCode 'n')]⟩ : Template).parse .pattern none).isOk
        = false := by decide +kernel
    obtain h | ⟨n, m, hn, -⟩ := parse_alike (t := ⟨"/a/", [""], [.character (.ofCode 'n')]⟩)
      (u := ⟨"/a/", [""], [.character (.literal (.ofChar .character 'a'))]⟩) rfl rfl rfl
      .pattern none
    · exact h
    · rw [hn] at hfails
      cases hfails

end Template

end RegexLiteral
