import RegexLiteral.Parse.Literal

/-!
# What holds of every step holds of the parser

Many properties of a parser are properties of its steps that sequences inherit (`Stepwise`). Such a
property holds of the whole grammar, so there is one walk over the grammar for all of them
(`Stepwise.body`). The steps are the parsers that look at the cursor or take
something; a few of them, as the one for the code of an escape, are put together from smaller ones
that need not have the property. Where those have it too, it is enough to know it of them
(`Elementary.production`).
-/

namespace RegexLiteral

/-- The causes that have to do with the node that belongs to a cut. -/
def Cause.isOfNode : Cause → Bool
  | noSubtree _ | surplusSubtree _ | notAnElement _ | notAClassElement _ | notFlags _ => true
  | _ => false

namespace Production

/-- What is read before it is known whether anything is left. -/
def body : Production → Parser Node
  | pattern => .pattern <$> Parser.pattern
  | flags => .flags <$> Parser.flags

theorem parser_eq (production : Production) : production.parser
    = (production.body >>= fun n => Parser.finish >>= fun _ => pure n) := by
  cases production <;> simp [parser, body, Parser.wholePattern, Parser.wholeFlags]

end Production

namespace Parser

variable {α β : Type}

/-- Sequences have the property if their parts do. Giving a value has it, and so have looking at a
lexeme and breaking a rule. -/
structure Composable (P : ∀ {α : Type}, Parser α → Prop) : Prop where
  pure : ∀ {α : Type} (a : α), P (pure a)
  bind : ∀ {α β : Type} {p : Parser α} {f : α → Parser β}, P p → (∀ a, P (f a)) → P (p >>= f)
  fault : ∀ {α : Type} (x : Fault), P (fault x : Parser α)
  look : ∀ n, P (look n)

/-- Steps have the property, and sequences of parsers that have it. What is done with the cursor
does not depend on its nodes, its looks and its fuel, if no step says so. -/
structure Stepwise (P : ∀ {α : Type}, Parser α → Prop) : Prop extends Composable P where
  get : ∀ {α : Type} {f : Cursor → Parser α}, (∀ c, P (f c)) →
    (∀ c substitutions looks allowance fuel,
      f { c with substitutions, looks, allowance, fuel } = f c) → P (get >>= f)
  throw : ∀ {α : Type} (e : ParseError), e.cause.isOfNode = false →
    P (throw (.error e) : Parser α)
  openDelimiter : ∀ k, P (openDelimiter k)
  closeDelimiter : P closeDelimiter
  token : ∀ category, P (token category)
  digit : P digit
  escapeCode : P escapeCode
  splice : ∀ {α : Type} (family? : Node → Option α) (cause : NodeType → Cause),
    (∀ type, cause type = .notAnElement type ∨ cause type = .notAClassElement type
      ∨ cause type = .notFlags type) → P (splice family? cause)
  rangeEndFollows : P rangeEndFollows

namespace Composable

variable {P : ∀ {α : Type}, Parser α → Prop} (h : Composable P)

include h

theorem map {p : Parser α} (f : α → β) (hp : P p) : P (f <$> p) := by
  rw [map_eq_pure_bind]
  exact h.bind hp fun _ => h.pure _

theorem isAt (k : Kind) : P (isAt k) := h.bind (h.look 0) fun _ => h.pure _

theorem isAtAny (ks : KindSet) : P (isAtAny ks) := h.bind (h.look 0) fun _ => h.pure _

theorem expect (k : Kind) : P (expect k) := by
  refine h.bind (h.isAt k) fun b => ?_
  split
  · exact h.pure _
  · exact h.fault _

theorem sound (r : Except InvalidNode α) : P (sound r) := by
  cases r with
  | ok a => exact h.pure a
  | error cause => exact h.fault _

theorem range (start stop : Nat) : P (range start stop) := by
  unfold Parser.range
  split
  · exact h.pure _
  · exact h.fault _

end Composable

namespace Stepwise

variable {P : ∀ {α : Type}, Parser α → Prop} (h : Stepwise P)

include h

/-! ## Steps -/

theorem failAt {cause : Cause} (hc : cause.isOfNode = false) (span : Span) :
    P (failAt span cause : Parser α) := h.throw _ hc

theorem fail {cause : Cause} (hc : cause.isOfNode = false) : P (fail cause : Parser α) :=
  h.get (fun _ => h.failAt hc _) fun _ _ _ _ _ => rfl

theorem failBecause {cause : Cause} (hc : cause.isOfNode = false) (related : List Related) :
    P (failBecause cause related : Parser α) := h.get (fun _ => h.throw _ hc) fun _ _ _ _ _ => rfl

theorem failUnclosed {cause : Cause} (hc : cause.isOfNode = false) (remark : Remark) :
    P (failUnclosed cause remark : Parser α) := by
  refine h.get (fun c => ?_) fun _ _ _ _ _ => rfl
  split
  · exact h.failBecause hc _
  · split
    · exact h.failBecause hc _
    · exact h.fault _

theorem slice (span : Span) : P (slice span) := by
  refine h.get (fun c => ?_) fun _ _ _ _ _ => rfl
  split
  · exact h.fault _
  · exact h.pure _

theorem collect {step : Parser (Option α)} (hs : P step) : P (collect step) := by
  have hwithin (n : Nat) : P (collectWithin step n) := by
    induction n with
    | zero => exact h.fault _
    | succ n ih =>
      refine h.bind hs fun r => ?_
      split
      · exact h.pure _
      · exact h.bind ih fun _ => h.pure _
  exact h.get (fun _ => hwithin _) fun _ _ _ _ _ => rfl

/-! ## Atoms -/

theorem literal : P literal := h.bind (h.token _) fun _ => h.sound _

theorem escapeTokens (code : Char) : P (escapeTokens code) :=
  h.bind (h.sound _) fun _ => h.bind (h.sound _) fun _ => h.pure _

theorem escapedCharacter (code : Char) : P (escapedCharacter code) :=
  h.bind (h.escapeTokens code) fun _ => h.bind (h.sound _) fun _ => h.pure _

theorem wordSet (code : Char) : P (wordSet code) :=
  h.bind (h.escapeTokens code) fun _ => h.sound _

theorem gap (code : Char) : P (gap code) := h.bind (h.escapeTokens code) fun _ => h.sound _

theorem escape : P escape := by
  refine h.bind h.escapeCode fun code => ?_
  split
  · exact h.bind (h.wordSet code) fun _ => h.pure _
  · split
    · exact h.bind (h.gap code) fun _ => h.pure _
    · exact h.bind (h.escapedCharacter code) fun _ => h.pure _

theorem classEscape : P classEscape := by
  refine h.bind h.escapeCode fun code => ?_
  split
  · exact h.bind (h.wordSet code) fun _ => h.pure _
  · exact h.bind (h.escapedCharacter code) fun _ => h.pure _

/-! ## Classes -/

theorem isAtRange : P isAtRange := by
  refine h.bind (h.isAt _) fun b => ?_
  split
  · exact h.rangeEndFollows
  · exact h.pure _

theorem classAtom : P classAtom := by
  refine h.bind (h.look 0) fun k => ?_
  split
  · exact h.classEscape
  · exact h.splice _ _ fun _ => .inr (.inl rfl)
  · exact h.map _ h.literal

theorem rangeEnd : P rangeEnd := by
  refine h.get (fun c => h.bind h.classAtom fun e => ?_) fun _ _ _ _ _ => rfl
  split
  · exact h.pure _
  · exact h.failAt rfl _

theorem rangeFrom (min : Character) : P (rangeFrom min) := by
  refine h.bind h.isAtRange fun b => ?_
  split
  · exact h.bind (h.token _) fun _ => h.bind h.rangeEnd fun _ =>
      h.bind (h.sound _) fun _ => h.pure _
  · exact h.pure _

theorem classElement : P classElement := by
  refine h.bind h.classAtom fun e => ?_
  split
  · exact h.rangeFrom _
  · exact h.pure _

theorem nextClassElement : P nextClassElement := by
  refine h.bind (h.look 0) fun k => ?_
  split
  · exact h.pure _
  · exact h.failUnclosed rfl _
  · exact h.map _ h.classElement

theorem negation : P negation := by
  refine h.bind (h.isAt _) fun b => ?_
  split
  · exact h.map _ (h.token _)
  · exact h.pure _

theorem characterClass : P characterClass :=
  h.bind (h.expect _) fun _ => h.bind (h.openDelimiter _) fun _ => h.bind (h.token _) fun _ =>
    h.bind (h.bind h.negation fun _ => h.bind (h.collect h.nextClassElement) fun _ => h.pure _)
      fun _ => h.bind (h.token _) fun _ => h.bind h.closeDelimiter fun _ => h.sound _

/-! ## Elements -/

theorem isAtSigil : P isAtSigil := by
  refine h.bind (h.isAtAny _) fun b => ?_
  split
  · exact h.pure _
  · exact h.get (fun _ => h.pure _) fun _ _ _ _ _ => rfl

theorem number : P number := by
  refine h.get (fun c => h.bind (h.collect h.digit) fun digits => ?_) fun _ _ _ _ _ => rfl
  refine h.bind (h.range _ _) fun span => h.bind (h.slice span) fun text => ?_
  split
  · exact h.failAt rfl _
  · exact h.bind (h.sound _) fun _ => h.pure _

theorem upperBound (min : Nat) : P (upperBound min) := by
  refine h.bind (h.isAt _) fun b => ?_
  split
  · refine h.bind (h.token _) fun _ => h.bind (h.isAt _) fun b => ?_
    split
    · exact h.bind h.number fun _ => h.pure _
    · exact h.pure _
  · exact h.pure _

theorem braces : P braces := by
  refine h.get (fun c => ?_) fun _ _ _ _ _ => rfl
  refine h.bind (h.token _) fun _ => h.bind h.number fun n => h.bind (h.upperBound n.2) fun u => ?_
  refine h.get (fun c' => h.bind (h.token _) fun _ => ?_) fun _ _ _ _ _ => rfl
  split
  · exact h.bind (h.sound _) fun _ => h.pure _
  · exact h.bind (h.range _ _) fun _ => h.failAt rfl _

theorem sigil : P sigil := by
  have hsign : P signBounds := by
    refine h.bind (h.isAtAny _) fun b => ?_
    split
    · exact h.get (fun _ => h.pure _) fun _ _ _ _ _ => rfl
    · exact h.pure _
  refine h.bind (h.isAt _) fun b => ?_
  split
  · exact h.braces
  refine h.bind hsign fun r => ?_
  split
  · exact h.fail rfl
  · exact h.bind (h.token _) fun _ => h.pure _

theorem repeated (e : Element) : P (repeated e) := by
  refine h.bind h.isAtSigil fun b => ?_
  split
  · split
    · exact h.fail rfl
    · refine h.bind h.sigil fun s => h.bind (h.isAt _) fun b => ?_
      split
      · exact h.fail rfl
      refine h.bind h.isAtSigil fun b => ?_
      split
      · exact h.fail rfl
      · exact h.bind (h.sound _) fun _ => h.pure _
  · exact h.pure _

theorem element : P element := by
  refine h.bind (h.look 0) fun k => ?_
  split
  · exact h.bind h.characterClass fun _ => h.pure _
  · exact h.bind h.escape fun _ => h.pure _
  · exact h.splice _ _ fun _ => .inl rfl
  refine h.bind h.isAtSigil fun b => ?_
  split
  · exact h.fail rfl
  · exact h.bind h.literal fun _ => h.pure _

/-! ## Literals -/

theorem alternative : P alternative := by
  have hnext : P nextElement := by
    refine h.bind (h.isAtAny _) fun b => ?_
    split
    · exact h.pure _
    · exact h.bind h.element fun e => h.map _ (h.repeated e)
  exact h.bind (h.collect hnext) fun _ => h.pure _

theorem nextAlternative : P nextAlternative := by
  refine h.bind (h.isAt _) fun b => ?_
  split
  · exact h.bind (h.token _) fun _ => h.bind h.alternative fun _ => h.pure _
  · exact h.pure _

theorem flagTokens (n : Nat) (seen : FlagSet) : P (flagTokens n seen) := by
  induction n generalizing seen with
  | zero => exact h.fault _
  | succ n ih =>
    refine h.bind (h.look 0) fun k => ?_
    split
    · exact h.pure _
    · exact h.fail rfl
    · exact h.fail rfl
    refine h.get (fun c => ?_) fun _ _ _ _ _ => rfl
    split
    · exact h.fail rfl
    split
    · exact h.fail rfl
    · exact h.bind (h.token _) fun _ => h.bind (ih _) fun _ => h.pure _

theorem flags : P flags := by
  refine h.bind (h.isAt _) fun b => ?_
  split
  · refine h.bind (h.splice _ _ fun _ => .inr (.inr rfl)) fun f => h.bind (h.isAt _) fun b => ?_
    split
    · exact h.pure _
    · exact h.fail rfl
  · exact h.get (fun _ => h.bind (h.flagTokens _ _) fun _ => h.sound _) fun _ _ _ _ _ => rfl

theorem openingSlash : P openingSlash := by
  refine h.bind (h.look 0) fun k => ?_
  split
  · exact h.bind (h.openDelimiter _) fun _ => h.token _
  · exact h.fail rfl
  · exact h.fail rfl
  · exact h.fail rfl

theorem closingSlash : P closingSlash := by
  refine h.bind (h.isAt _) fun b => ?_
  split
  · exact h.bind (h.token _) fun _ => h.bind h.closeDelimiter fun _ => h.pure _
  · exact h.failUnclosed rfl _

theorem pattern : P pattern :=
  h.bind h.openingSlash fun _ => h.bind h.alternative fun _ =>
    h.bind (h.collect h.nextAlternative) fun _ => h.bind h.closingSlash fun _ =>
    h.bind h.flags fun _ => h.sound _

theorem body (production : Production) : P production.body := by
  cases production with
  | pattern => exact h.map _ h.pattern
  | flags => exact h.map _ h.flags

end Stepwise

/-- The smallest steps have the property, and sequences of parsers that have it. No step but these
looks at the fuel or at the looks that are left. -/
structure Elementary (P : ∀ {α : Type}, Parser α → Prop) : Prop extends Composable P where
  get : ∀ {α : Type} {f : Cursor → Parser α}, (∀ c, P (f c)) →
    (∀ c looks allowance fuel, f { c with looks, allowance, fuel } = f c) → P (get >>= f)
  modify : ∀ {g : Cursor → Cursor}, (∀ c, (g c).lexemes = c.lexemes) →
    (∀ c looks allowance fuel,
      g { c with looks, allowance, fuel } = { g c with looks, allowance, fuel }) → P (modify g)
  throw : ∀ {α : Type} (e : ParseError), P (throw (.error e) : Parser α)
  consume : P consume

namespace Elementary

variable {P : ∀ {α : Type}, Parser α → Prop} (h : Elementary P)

include h

theorem fail (cause : Cause) : P (fail cause : Parser α) :=
  h.get (fun _ => h.throw _) fun _ _ _ _ => rfl

theorem token (category : Category) : P (token category) := h.bind h.consume fun _ => h.sound _

theorem digit : P digit := by
  refine h.bind (h.isAt _) fun b => ?_
  split
  · exact h.map _ h.consume
  · exact h.pure _

theorem escapeCode : P escapeCode := by
  refine h.bind (h.expect _) fun _ => h.get (fun c => ?_) fun _ _ _ _ => rfl
  refine h.bind h.consume fun _ => h.bind (h.isAt _) fun b => ?_
  split
  · exact h.fail _
  refine h.bind (h.isAt _) fun b => ?_
  split
  · exact h.fail _
  refine h.get (fun c => ?_) fun _ _ _ _ => rfl
  split
  · exact h.get (fun _ => h.throw _) fun _ _ _ _ => rfl
  · exact h.bind h.consume fun _ => h.pure _

theorem substitution : P substitution := by
  refine h.bind (h.expect _) fun _ => h.get (fun c => ?_) fun _ _ _ _ => rfl
  split
  · exact h.fail _
  · exact h.bind h.consume fun _ =>
      h.bind (h.modify (fun _ => rfl) fun _ _ _ _ => rfl) fun _ => h.pure _

theorem splice (family? : Node → Option α) (cause : NodeType → Cause) :
    P (splice family? cause) := by
  refine h.get (fun c => h.bind h.substitution fun node => ?_) fun _ _ _ _ => rfl
  split
  · exact h.pure _
  · exact h.throw _

theorem rangeEndFollows : P rangeEndFollows := by
  refine h.bind (h.look 1) fun k => ?_
  split
  case h_4 | h_5 => exact h.get (fun _ => h.pure _) fun _ _ _ _ => rfl
  all_goals exact h.pure _

theorem finish : P finish := by
  refine h.bind (h.expect _) fun _ => h.get (fun c => ?_) fun _ _ _ _ => rfl
  split
  · exact h.pure _
  · exact h.throw _

theorem stepwise : Stepwise P where
  toComposable := h.toComposable
  get hf hsame := h.get hf fun c looks allowance fuel => hsame c _ looks allowance fuel
  throw e _ := h.throw e
  openDelimiter _ := h.modify (fun _ => rfl) fun _ _ _ _ => rfl
  closeDelimiter := h.modify (fun _ => rfl) fun _ _ _ _ => rfl
  token := h.token
  digit := h.digit
  escapeCode := h.escapeCode
  splice family? cause _ := h.splice family? cause
  rangeEndFollows := h.rangeEndFollows

theorem production (production : Production) : P production.parser := by
  rw [production.parser_eq]
  exact h.bind (h.stepwise.body production) fun _ => h.bind h.finish fun _ => h.pure _

end Elementary

end Parser

end RegexLiteral
