import RegexLiteral.Proofs.Outline.Place

/-!
# The outline of a node shows its parts

The events of a node are those of a single outline, its root has the kind of the node, and its
entries are what the typed tree says: the tokens of the node in their order, and one entry for each
part (`Node.outline_agrees`). Events, tokens and parts are three walks through the typed tree.
`Shown` says that they fit together, and is kept where parts are put in a row and where a row
becomes the inside of an entry.
-/

namespace RegexLiteral

open Outline

def Token.leaf (t : Token) : Leaf := ⟨t.category.kind, t.text⟩

theorem joined_map_leaf (ts : List Token) : Leaf.joined (ts.map Token.leaf) = spelled ts := by
  rw [Leaf.joined, List.flatMap_map]
  rfl

/-- The part stands in the tokens, behind those that come before it. -/
def Part.Place.LiesIn (p : Part.Place) (tokens : List Token) : Prop :=
  ∃ after, tokens = p.before ++ p.part.tokens ++ after

theorem Part.Place.LiesIn.append {p : Part.Place} {tokens : List Token} (h : p.LiesIn tokens)
    (more : List Token) : p.LiesIn (tokens ++ more) := by
  obtain ⟨after, rfl⟩ := h
  exact ⟨after ++ more, by rw [List.append_assoc _ after]⟩

/-- The row of outlines is told by the events, its leaves are the tokens, and its other entries are
those of the parts. -/
structure Shows (os : List Outline) (events : List OutlineEvent) (tokens : List Token)
    (places : Nat → List Token → List Part.Place) : Prop where
  events_eq : eventsAll os = events
  sorted : SortedAll os
  leaves_eq : leavesAll os = tokens.map Token.leaf
  inner_eq : ∀ depth before, OutlineEntry.inner (entriesFromAll depth (width before) os)
    = (places depth before).map Part.Place.entry
  liesIn : ∀ depth before, ∀ p ∈ places depth before, p.LiesIn (before ++ tokens)

theorem Shows.charsAll_eq {os : List Outline} {events : List OutlineEvent} {tokens : List Token}
    {places : Nat → List Token → List Part.Place} (h : Shows os events tokens places) :
    charsAll os = spelled tokens := by
  rw [Outline.charsAll_eq, h.leaves_eq, joined_map_leaf]

/-- Events, tokens and parts are those of one row of outlines. -/
def Shown (events : List OutlineEvent) (tokens : List Token)
    (places : Nat → List Token → List Part.Place) : Prop :=
  ∃ os, Shows os events tokens places

/-- Events, tokens and parts are those of one outline with the kind at its root. -/
def Rooted (kind : Kind) (events : List OutlineEvent) (tokens : List Token)
    (places : Nat → List Token → List Part.Place) : Prop :=
  ∃ children, Shows [.node kind children] events tokens places

section Rules

variable {kind : Kind} {events events' : List OutlineEvent} {tokens tokens' : List Token}
  {places places' : Nat → List Token → List Part.Place}

theorem Rooted.shown (h : Rooted kind events tokens places) : Shown events tokens places := by
  obtain ⟨children, h⟩ := h
  exact ⟨_, h⟩

theorem shown_nil : Shown [] [] fun _ _ => [] :=
  ⟨[], rfl, trivial, rfl, fun _ _ => rfl, fun _ _ _ hp => absurd hp List.not_mem_nil⟩

theorem Shown.append (h : Shown events tokens places)
    (h' : Shown events' tokens' places') : Shown (events ++ events') (tokens ++ tokens')
      fun depth before => places depth before ++ places' depth (before ++ tokens) := by
  obtain ⟨a, ha⟩ := h
  obtain ⟨b, hb⟩ := h'
  refine ⟨a ++ b, ?_, sortedAll_append ha.sorted hb.sorted, ?_, fun depth before => ?_,
    fun depth before p hp => ?_⟩
  · rw [eventsAll_append, ha.events_eq, hb.events_eq]
  · rw [leavesAll_append, ha.leaves_eq, hb.leaves_eq, List.map_append]
  · have hi := ha.inner_eq depth before
    have hi' := hb.inner_eq depth (before ++ tokens)
    rw [OutlineEntry.inner] at hi hi' ⊢
    rw [width_append] at hi'
    rw [entriesFromAll_append, List.filter_append, ha.charsAll_eq, hi, List.map_append, ← hi']
    rfl
  · rcases List.mem_append.1 hp with hp | hp
    · rw [← List.append_assoc]
      exact (ha.liesIn depth before p hp).append _
    · rw [← List.append_assoc]
      exact hb.liesIn depth _ p hp

theorem isToken_kind_category (c : Category) : c.kind.isToken = true := by
  cases c <;> rfl

theorem shown_token (t : Token) : Shown [t.event] [t] fun _ _ => [] :=
  ⟨[.token t.category.kind t.text], rfl, ⟨isToken_kind_category _, trivial⟩, rfl, fun _ _ => by
    simp [entriesFromAll, entriesFrom, OutlineEntry.inner, isToken_kind_category],
    fun _ _ _ hp => absurd hp List.not_mem_nil⟩

theorem shown_tokens : ∀ ts : List Token,
    Shown (ts.map Token.event) ts fun _ _ => []
  | [] => shown_nil
  | t :: ts => (shown_token t).append (shown_tokens ts)

theorem Part.isToken_kind (p : Part) : p.kind.isToken = false := by
  rcases p with n | b
  · cases n <;> rfl
  · rfl

/-- A row becomes the inside of the entry for a part. -/
theorem Shown.within (h : Shown events tokens places) (p : Part) (ht : p.tokens = tokens)
    (hp : ∀ depth before, places' depth before = ⟨depth, before, p⟩ :: places (depth + 1) before) :
    Rooted p.kind (OutlineEvent.within p.kind events) tokens places' := by
  obtain ⟨os, h⟩ := h
  subst ht
  refine ⟨os, ?_, ⟨⟨p.isToken_kind, h.sorted⟩, trivial⟩, ?_, fun depth before => ?_,
    fun depth before q hq => ?_⟩
  · simp [eventsAll, Outline.events, h.events_eq]
  · simp [leavesAll, leaves, h.leaves_eq]
  · have hi := h.inner_eq (depth + 1) before
    rw [OutlineEntry.inner] at hi ⊢
    simp only [hp, entriesFromAll, entriesFrom, List.append_nil, List.filter_cons, p.isToken_kind,
      Bool.not_false, if_true, hi, List.map_cons, h.charsAll_eq]
    simp [Part.Place.entry, joinText, spelled, width]
  · rw [hp] at hq
    rcases List.mem_cons.1 hq with rfl | hq
    · exact ⟨[], by simp⟩
    · exact h.liesIn _ _ q hq

theorem shown_inRow {α : Type} {events : α → List OutlineEvent} {tokens : α → List Token}
    {places : Nat → List Token → α → List Part.Place}
    (h : ∀ a, Shown (events a) (tokens a) fun depth before => places depth before a) :
    ∀ as : List α, Shown (as.flatMap events) (as.flatMap tokens)
      fun depth before => Part.Place.inRow places tokens depth before as
  | [] => shown_nil
  | a :: as => (h a).append (shown_inRow h as)

end Rules

/-! ## The types of nodes -/

theorem EscapeSequence.rooted (e : EscapeSequence) :
    Rooted .escapeSequence e.events e.tokens fun depth before => e.places depth before :=
  ((shown_token e.escape).append (shown_token e.code)).within
    (.node (.escapeSequence e)) rfl fun _ _ => rfl

theorem Character.rooted (c : Character) :
    Rooted .character c.events c.tokens fun depth before => c.places depth before := by
  cases c with
  | literal t =>
    exact (shown_token t).within (.node (.character (.literal t))) rfl fun _ _ => rfl
  | escaped e =>
    exact e.rooted.shown.within (.node (.character (.escaped e))) rfl fun _ _ => rfl

theorem WordCharacterSet.rooted (s : WordCharacterSet) :
    Rooted .wordCharacterSet s.events s.tokens fun depth before => s.places depth before :=
  ((shown_token s.escapeToken).append (shown_token s.value)).within
    (.node (.wordCharacterSet s)) rfl fun _ _ => rfl

theorem Gap.rooted (g : Gap) :
    Rooted .gap g.events g.tokens fun depth before => g.places depth before :=
  ((shown_token g.escapeToken).append (shown_token g.value)).within
    (.node (.gap g)) rfl fun _ _ => rfl

theorem CharacterClassRange.rooted (r : CharacterClassRange) :
    Rooted .characterClassRange r.events r.tokens fun depth before => r.places depth before := by
  have h := r.min.rooted.shown.append
    ((shown_token r.sigilToken).append r.max.rooted.shown)
  refine h.within (.node (.characterClassRange r)) rfl fun depth before => ?_
  rw [CharacterClassRange.places, List.cons_append, List.nil_append]

theorem ClassElement.shown (e : ClassElement) :
    Shown e.events e.tokens fun depth before => e.places depth before := by
  cases e with
  | character c => exact c.rooted.shown
  | range r => exact r.rooted.shown
  | wordCharacterSet s => exact s.rooted.shown

theorem CharacterClass.rooted (c : CharacterClass) :
    Rooted .characterClass c.events c.tokens fun depth before => c.places depth before := by
  have h := (((shown_token c.openToken).append (shown_tokens c.negateToken.toList)).append
    (shown_inRow ClassElement.shown c.elements)).append (shown_token c.closeToken)
  refine h.within (.node (.characterClass c)) rfl fun depth before => ?_
  simp [CharacterClass.places]

theorem Braces.rooted (b : Braces) :
    Rooted .braces b.events b.tokens fun depth before => [⟨depth, before, .braces b⟩] := by
  have h := ((((shown_token b.openToken).append (shown_token b.minToken)).append
    (shown_tokens b.separatorToken.toList)).append (shown_tokens b.maxToken.toList)).append
      (shown_token b.closeToken)
  exact h.within (.braces b) rfl fun _ _ => rfl

theorem Sigil.shown (s : Sigil) :
    Shown s.events s.tokens fun depth before => s.places depth before := by
  cases s with
  | token t => exact shown_token t
  | braces b => exact b.rooted.shown

theorem Atom.shown (a : Atom) :
    Shown a.events a.tokens fun depth before => a.places depth before := by
  cases a with
  | character c => exact c.rooted.shown
  | characterClass c => exact c.rooted.shown
  | wordCharacterSet s => exact s.rooted.shown
  | gap g => exact g.rooted.shown

theorem Quantifier.rooted (q : Quantifier) :
    Rooted .quantifier q.events q.tokens fun depth before => q.places depth before :=
  (q.atom.shown.append q.sigil.shown).within (.node (.quantifier q)) rfl fun _ _ => rfl

theorem Element.shown (e : Element) :
    Shown e.events e.tokens fun depth before => e.places depth before := by
  cases e with
  | atom a => exact a.shown
  | quantifier q => exact q.rooted.shown

theorem Alternative.rooted (a : Alternative) :
    Rooted .alternative a.events a.tokens fun depth before => a.places depth before :=
  (shown_inRow Element.shown a.elements).within (.node (.alternative a)) rfl fun _ _ => rfl

theorem Alternative.shownBehind (r : Token × Alternative) :
    Shown (r.1.event :: r.2.events) (r.1 :: r.2.tokens)
      fun depth before => Alternative.placesBehind depth before r :=
  (shown_token r.1).append r.2.rooted.shown

theorem Flags.rooted (f : Flags) :
    Rooted .flags f.events f.tokens fun depth before => f.places depth before :=
  (shown_tokens f.tokens).within (.node (.flags f)) rfl fun _ _ => rfl

theorem Pattern.rooted (p : Pattern) :
    Rooted .pattern p.events p.tokens fun depth before => p.places depth before := by
  have h := (((shown_token p.openToken).append p.first.rooted.shown).append
    (shown_inRow Alternative.shownBehind p.rest)).append
      ((shown_token p.closeToken).append p.flags.rooted.shown)
  refine h.within (.node (.pattern p)) rfl fun depth before => ?_
  simp [Pattern.places]

theorem Node.rooted (n : Node) : ∃ places, Rooted n.type.kind n.events n.tokens places
    ∧ n.places = places 0 [] := by
  cases n with
  | pattern p => exact ⟨_, p.rooted, rfl⟩
  | alternative a => exact ⟨_, a.rooted, rfl⟩
  | character c => exact ⟨_, c.rooted, rfl⟩
  | characterClass c => exact ⟨_, c.rooted, rfl⟩
  | characterClassRange r => exact ⟨_, r.rooted, rfl⟩
  | quantifier q => exact ⟨_, q.rooted, rfl⟩
  | flags f => exact ⟨_, f.rooted, rfl⟩
  | escapeSequence e => exact ⟨_, e.rooted, rfl⟩
  | wordCharacterSet s => exact ⟨_, s.rooted, rfl⟩
  | gap g => exact ⟨_, g.rooted, rfl⟩

/-! ## Outlines of nodes -/

/-- What an outline of the node says of it: the leaves are its tokens, and their ranges tile its
text. The other entries are its parts, in their order and at their depths. The range of every entry
cuts its text out of that of the node. -/
structure Node.ShownBy (n : Node) (o : Outline) : Prop where
  events : o.events = n.events
  tokens : (OutlineEntry.tokens o.entries).map OutlineEntry.leaf = n.tokens.map Token.leaf
  tile : Span.Tile 0 (byteSize n.text.toList) ((OutlineEntry.tokens o.entries).map (·.span))
  parts : OutlineEntry.inner o.entries = n.places.map Part.Place.entry
  liesIn : ∀ p ∈ n.places, p.LiesIn n.tokens
  slice : ∀ e ∈ o.entries, e.span.slice? n.text.toList = some e.text.toList

/-- The events of a node make one outline, which has the kind of the node at its root and shows the
tokens and the parts of the node. -/
theorem Node.outline_agrees (n : Node) : ∃ children : List Outline,
    n.outline? = some (.node n.type.kind children) ∧ n.ShownBy (.node n.type.kind children) := by
  obtain ⟨places, ⟨children, h⟩, hplaces⟩ := n.rooted
  have hevents : (Outline.node n.type.kind children).events = n.events := by
    simpa [eventsAll] using h.events_eq
  have hleaves : (Outline.node n.type.kind children).leaves = n.tokens.map Token.leaf := by
    simpa [leavesAll] using h.leaves_eq
  have hchars : n.text.toList = (Outline.node n.type.kind children).chars := by
    rw [Outline.chars_eq, hleaves, joined_map_leaf, toList_text]
  -- The entries for the tokens are the leaves, laid out from the beginning.
  have hlaid := tokens_entriesFrom 0 0 _ h.sorted.1
  refine ⟨children, ?_, hevents, ?_, ?_, ?_, ?_, fun e he => ?_⟩
  · rw [outline?, ← hevents, ofEvents?_events]
  · have := congrArg (List.map Prod.fst) hlaid
    rwa [List.map_map, Leaf.map_fst_layOut, hleaves] at this
  · have := Leaf.tile_layOut 0 (Outline.node n.type.kind children).leaves
    rwa [← hlaid, List.map_map, ← Outline.chars_eq, ← hchars, Nat.zero_add] at this
  · rw [hplaces, ← h.inner_eq 0 []]
    simp [entriesFromAll, entries]
  · intro p hp
    rw [hplaces] at hp
    exact h.liesIn 0 [] p hp
  · have := slice?_of_mem_entriesFrom 0 [] _ [] e he
    rwa [List.nil_append, List.append_nil, ← hchars] at this

end RegexLiteral
