import RegexLiteral.Proofs.Carving
import RegexLiteral.Proofs.ClassBody

/-!
# Splicing is transparent

What was read can be cut out of its source and put in again as a node, at as many sites as one
likes, and the tree stays the same (`parse_cutOut`). Each part of a derivation is derived anew from
what is left of it. A node that takes the place of characters makes no sigil and no range where
there was none: a sigil between braces is made of characters only, and the minus of a range is one,
behind which a node counts as a character exactly if what it was read from did.
-/

namespace RegexLiteral

/-- No node has been put in. -/
def Bare (is : List Item) : Prop := ∀ i ∈ is, i.node? = none

theorem bare_append {is js : List Item} : Bare (is ++ js) ↔ Bare is ∧ Bare js :=
  List.forall_mem_append

theorem bare_cons {i : Item} {is : List Item} : Bare (i :: is) ↔ i.node? = none ∧ Bare is :=
  List.forall_mem_cons

theorem width_eq_extent {ts : List Token} {is : List Item} (h : spelled ts = written is)
    (hbare : Bare is) : width ts = extent is := by
  have hwritten : written is = is.flatMap Item.chars := by
    rw [written, List.flatMap_def, List.flatMap_def]
    refine congrArg List.flatten (List.map_congr_left fun i hi => ?_)
    have hi := hbare i hi
    cases i with
    | node n => cases hi
    | _ => rfl
  rw [width, h, hwritten, extent]

theorem width_ofChar (category : Category) (c : Char) :
    width [.ofChar category c] = extent [.char c] :=
  width_eq_extent (by simp [Item.written]) (by simp [Bare, Item.node?])

namespace Written

variable {start : Nat} {cuts : List Site}

/-! ## Classes -/

namespace ClassAtom

theorem guises_classElement? {e : ClassElement} {g : Node} (hg : g ∈ e.toNode.guises) :
    g.classElement? = some e := by
  rcases e with (_ | _) | _ | _ <;> simp [ClassElement.toNode, Node.guises] at hg <;>
    (try rcases hg with rfl | rfl) <;> rfl

/-- An atom that is cut out stands for the same element. -/
structure StandsFor (a' a : ClassAtom) : Prop where
  element : a'.element = a.element
  kept : a' = a ∨ ∃ n e h, a' = .node n e h

theorem StandsFor.character?_eq {a' a : ClassAtom} (h : a'.StandsFor a) :
    a'.character? = a.character? := by
  rw [character?, character?, h.element]

theorem extent_pos {a : ClassAtom} (h : Bare a.items) : 0 < extent a.items := by
  cases a with
  | char c _ => exact extent_char_pos c []
  | pair code => exact extent_char_pos '\\' _
  | node n e _ => cases h (.node n) List.mem_cons_self

/-- An atom by itself is no range. -/
theorem sites_element {a : ClassAtom} (h : Bare a.items) (start : Nat) :
    a.element.sites start = Site.whole start a.element.toNode ++ [] := by
  cases a with
  | char c _ => rfl
  | pair code =>
    rw [element]
    split <;> rfl
  | node n e _ => cases h (.node n) List.mem_cons_self

theorem width_element {a : ClassAtom} (h : Bare a.items) :
    width a.element.toNode.tokens = extent a.items := by
  rw [← tokens_of_classElement? a.element.classElement?_toNode,
    width_eq_extent a.spelled_element h]

theorem cut {a : ClassAtom} (h : Bare a.items) (hp : Picks cuts (a.element.sites start)) :
    ∃ a' : ClassAtom, a'.StandsFor a ∧ Carves start a.items cuts a'.items := by
  have hwidth := width_element h
  rw [sites_element h] at hp
  rcases hp.whole_or (hwidth ▸ extent_pos h) (by simp) with ⟨g, hg, rfl⟩ | hnone
  · refine ⟨.node g _ (guises_classElement? hg), ⟨rfl, .inr ⟨_, _, _, rfl⟩⟩, ?_⟩
    rw [hwidth]
    exact .whole start a.items g
  · rw [hnone.eq_nil]
    exact ⟨a, ⟨rfl, .inl rfl⟩, .refl start a.items⟩

/-- What is left of atoms, some of which are cut out, by themselves or as a range. -/
inductive Swapped : List ClassAtom → List ClassAtom → Prop
  | nil : Swapped [] []
  | atom {a' a : ClassAtom} {as' as : List ClassAtom} (ha : a'.StandsFor a) (h : Swapped as' as) :
    Swapped (a' :: as') (a :: as)
  | range {n : Node} {r : CharacterClassRange} (hr : n.classElement? = some (.range r))
    {a b c : ClassAtom} {as' as : List ClassAtom} (h : Swapped as' as) :
    Swapped (.node n (.range r) hr :: as') (a :: b :: c :: as)

/-- No range begins where none did. -/
theorem Swapped.rangeStart {as' as : List ClassAtom} (h : Swapped as' as) (hs : RangeStart as') :
    RangeStart as := by
  obtain ⟨b', c', rest', rfl, hminus, hsome⟩ := hs
  -- A node is no minus, so the minus is one that was there before.
  cases h with
  | range hr _ => cases hminus
  | @atom _ b _ _ hb h =>
    obtain rfl | ⟨n, e, he, rfl⟩ := hb.kept
    · cases h with
      | range hr _ => cases hsome
      | @atom _ c _ rest hc _ =>
        rw [hc.character?_eq] at hsome
        exact ⟨b', c, rest, rfl, hminus, hsome⟩
    · cases hminus

/-- The atoms can be cut at all sites of their elements. -/
def Cuttable (as : List ClassAtom) : Prop := ∀ (start : Nat) (cuts : List Site),
  Bare (as.flatMap items) →
  Picks cuts (Site.inRow ClassElement.sites ClassElement.tokens start (elements as)) →
  ∃ as', Swapped as' as ∧ elements as' = elements as
    ∧ Carves start (as.flatMap items) cuts (as'.flatMap items)

theorem Cuttable.cons {a : ClassAtom} {as : List ClassAtom} (has : Cuttable as)
    (h : a.character? = none ∨ ¬ RangeStart as) : Cuttable (a :: as) := by
  intro start cuts hbare hp
  rw [List.flatMap_cons, bare_append] at hbare
  rw [elements_cons_of_not_range h, Site.inRow] at hp
  obtain ⟨before, after, rfl, hbefore, hafter⟩ := hp.split
  rw [width_eq_extent a.spelled_element hbare.1] at hafter
  obtain ⟨a', ha', hcut⟩ := cut hbare.1 hbefore
  obtain ⟨as', has', helements, hcuts⟩ := has _ _ hbare.2 hafter
  refine ⟨a' :: as', .atom ha' has', ?_, hcut.append hcuts⟩
  have h' : a'.character? = none ∨ ¬ RangeStart as' := by
    rw [ha'.character?_eq]
    exact h.imp_right (mt has'.rangeStart)
  rw [elements_cons_of_not_range h, elements_cons_of_not_range h', ha'.element, helements]

theorem width_character {a : ClassAtom} {r : Character} (h : a.character? = some r)
    (hbare : Bare a.items) : width r.tokens = extent a.items := by
  have hspelled := a.spelled_element
  rw [element_eq h] at hspelled
  exact width_eq_extent hspelled hbare

/-- Three atoms that make up a range. -/
structure MakeRange (a b c : ClassAtom) (min max : Character) : Prop where
  min : a.character? = some min
  minus : b.isMinus
  max : c.character? = some max
  bareMin : Bare a.items
  bareMax : Bare c.items

namespace MakeRange

variable {a b c : ClassAtom} {min max : Character}

abbrev range (min max : Character) : CharacterClassRange := ⟨min, .ofChar .punctuator '-', max⟩

theorem elements_eq (h : MakeRange a b c min max) (as : List ClassAtom) :
    elements (a :: b :: c :: as) = .range (range min max) :: elements as := by
  rw [elements, h.min, h.minus, h.max]

theorem width_eq (h : MakeRange a b c min max) :
    width (range min max).tokens = extent a.items + (extent b.items + extent c.items) := by
  rw [CharacterClassRange.tokens, width_append, width_cons, width_character h.min h.bareMin,
    width_character h.max h.bareMax, width_ofChar, isMinus_iff.1 h.minus]

theorem start_lt (h : MakeRange a b c min max) {p : Site}
    (hp : p ∈ (range min max).sites start) :
    p.start < start + width (range min max).tokens := by
  have hmin := extent_pos h.bareMin
  have hmax := extent_pos h.bareMax
  rw [h.width_eq]
  rcases List.mem_append.1 hp with hp | hp
  · obtain ⟨g, -, rfl⟩ := List.mem_map.1 hp
    dsimp only
    omega
  · obtain ⟨g, -, rfl⟩ := List.mem_map.1 hp
    change start + width min.tokens + width [_] < _
    rw [width_character h.min h.bareMin, width_ofChar, isMinus_iff.1 h.minus]
    omega

/-- Ends of the range are cut out. -/
theorem cut_ends (h : MakeRange a b c min max)
    (hp : Picks cuts ((range min max).sites start)) :
    ∃ a' c' : ClassAtom, a'.StandsFor a ∧ c'.StandsFor c
      ∧ Carves start (a.items ++ (b.items ++ c.items)) cuts
        (a'.items ++ (b.items ++ c'.items)) := by
  obtain ⟨before, after, rfl, hbefore, hafter⟩ := hp.split
  have hsites {a : ClassAtom} {r : Character} (start : Nat) (hr : a.character? = some r) :
      a.element.sites start = Site.whole start (.character r) := by
    rw [element_eq hr]
    exact List.append_nil _
  rw [width_character h.min h.bareMin, width_ofChar, ← isMinus_iff.1 h.minus] at hafter
  obtain ⟨a', ha', hmin⟩ := cut h.bareMin ((hsites _ h.min).symm ▸ hbefore)
  obtain ⟨c', hc', hmax⟩ := cut h.bareMax ((hsites _ h.max).symm ▸ hafter)
  exact ⟨a', c', ha', hc', hmin.append ((Carves.refl _ b.items).append hmax)⟩

end MakeRange

theorem Cuttable.range {a b c : ClassAtom} {as : List ClassAtom} {min max : Character}
    (has : Cuttable as) (hmin : a.character? = some min) (hminus : b.isMinus)
    (hmax : c.character? = some max) : Cuttable (a :: b :: c :: as) := by
  intro start cuts hbare hp
  simp only [List.flatMap_cons, bare_append] at hbare
  obtain ⟨ha, -, hc, hbare⟩ := hbare
  have h : MakeRange a b c min max := ⟨hmin, hminus, hmax, ha, hc⟩
  have hpos : 0 < width (MakeRange.range min max).tokens := by
    have := extent_pos ha
    rw [h.width_eq]
    omega
  rw [h.elements_eq, Site.inRow] at hp
  obtain ⟨before, after, rfl, hbefore, hafter⟩ := hp.split
  change Picks after (Site.inRow _ _ (start + width (MakeRange.range min max).tokens) _) at hafter
  rw [h.width_eq, ← extent_append, ← extent_append] at hafter
  obtain ⟨as', has', helements, hcuts⟩ := has _ _ hbare hafter
  have hitems : (a :: b :: c :: as).flatMap items
      = (a.items ++ (b.items ++ c.items)) ++ as.flatMap items := by simp
  rcases Picks.whole_or hbefore hpos fun p hp => h.start_lt hp with ⟨g, hg, rfl⟩ | hends
  · have hg' : g.classElement? = some (.range (MakeRange.range min max)) := guises_classElement? hg
    refine ⟨.node g _ hg' :: as', .range hg' has', ?_, ?_⟩
    · rw [elements_cons_of_not_range (.inl rfl), h.elements_eq, helements]
      rfl
    · have hcut := (Carves.whole start (a.items ++ (b.items ++ c.items)) g).append hcuts
      rw [extent_append, extent_append, ← h.width_eq, ← hitems] at hcut
      exact hcut
  · obtain ⟨a', c', ha', hc', hcut⟩ := h.cut_ends hends
    refine ⟨a' :: b :: c' :: as', .atom ha' (.atom ⟨rfl, .inl rfl⟩ (.atom hc' has')), ?_, ?_⟩
    · rw [h.elements_eq, elements, ha'.character?_eq, hc'.character?_eq, hmin, hminus, hmax,
        helements]
    · rw [hitems]
      simpa using hcut.append hcuts

theorem cuttable_elements (as : List ClassAtom) : Cuttable as := by
  have hnil : Cuttable [] := by
    intro start cuts _ hp
    rw [hp.eq_nil]
    exact ⟨[], .nil, rfl, .refl start []⟩
  fun_induction elements as with
  | case1 => exact hnil
  | case2 a => exact hnil.cons (.inr (by simp [RangeStart]))
  | case3 a b =>
    have hb : Cuttable [b] := hnil.cons (.inr (by simp [RangeStart]))
    exact hb.cons (.inr (by simp [RangeStart]))
  | case4 a b c rest min max hmax hminus hmin ih => exact ih.range hmin hminus hmax
  | case5 a b c rest h ih =>
    refine ih.cons ?_
    cases hmin : a.character? with
    | none => exact .inl rfl
    | some min =>
      refine .inr fun hs => ?_
      obtain ⟨_, _, _, ⟨⟩, hminus, hsome⟩ := hs
      obtain ⟨max, hmax⟩ := Option.isSome_iff_exists.1 hsome
      exact h min max hmin hminus hmax

/-- A class is not negated by what is left of its body if it was not negated before. -/
theorem Swapped.negation {body' body : List ClassAtom} (h : Swapped body' body)
    (hn : negation body = (none, body)) : negation body' = (none, body') := by
  rcases negation_cases body' with ⟨hc, rest', rfl⟩ | hn'
  · cases h with
    | @atom _ b _ rest hb _ =>
      obtain rfl | ⟨n, e, he, hnode⟩ := hb.kept
      · rw [negation_caret] at hn
        cases hn
      · cases hnode
  · exact hn'

theorem sites_charClass (body : List ClassAtom) (start : Nat) : (charClass body).sites start
    = Site.inRow ClassElement.sites ClassElement.tokens
      (start + extent [.char '['] + width (negation body).1.toList)
      (elements (negation body).2) := by
  rw [← width_ofChar .punctuator '[']
  rfl

theorem cut_body {body : List ClassAtom} (h : Bare (body.flatMap items))
    (hp : Picks cuts ((charClass body).sites start)) :
    ∃ body', charClass body' = charClass body
      ∧ Carves (start + extent [.char '[']) (body.flatMap items) cuts (body'.flatMap items) := by
  rw [sites_charClass] at hp
  rcases negation_cases body with ⟨hc, rest, rfl⟩ | hn
  · rw [List.flatMap_cons, bare_append] at h
    rw [negation_caret, Option.toList_some, width_ofChar] at hp
    obtain ⟨rest', -, helements, hcuts⟩ := cuttable_elements rest _ _ h.2 hp
    refine ⟨.char '^' hc :: rest', ?_, (Carves.refl _ _).append hcuts⟩
    rw [charClass, charClass, negation_caret, negation_caret, helements]
  · rw [hn] at hp
    obtain ⟨body', hswapped, helements, hcuts⟩ := cuttable_elements body _ _ h hp
    refine ⟨body', ?_, hcuts⟩
    rw [charClass, charClass, hn, hswapped.negation hn, helements]

end ClassAtom

/-! ## Atoms -/

namespace Atom

theorem guises_element? {a : RegexLiteral.Atom} {g : Node} (hg : g ∈ a.toNode.guises) :
    g.element? = some (.atom a) := by
  rcases a with (_ | _) | _ | _ | _ <;> simp [RegexLiteral.Atom.toNode, Node.guises] at hg <;>
    (try rcases hg with rfl | rfl) <;> rfl

theorem extent_pos {a : Atom} (h : Bare a.items) : 0 < extent a.items := by
  cases a with
  | literal c _ => exact extent_char_pos c []
  | pair code => exact extent_char_pos '\\' _
  | charClass body => exact extent_char_pos '[' _
  | node n e _ => cases h (.node n) List.mem_cons_self

theorem width_tree {a : Atom} (h : Bare a.items) :
    width a.tree.toNode.tokens = extent a.items := by
  have htokens : a.tree.tokens = a.tree.toNode.tokens :=
    tokens_of_element? (Element.element?_toNode (.atom a.tree))
  rw [← htokens, width_eq_extent a.spelled_tree h]

theorem innerSites_pair (code : Char) (start : Nat) :
    (Atom.pair code).tree.innerSites start = [] := by
  rw [tree]
  split
  · rfl
  · split <;> rfl

/-- What lies in an atom starts before the atom stops. -/
theorem start_lt {a : Atom} {p : Site} (h : Bare a.items) (hp : p ∈ a.tree.innerSites start) :
    p.start < start + width a.tree.toNode.tokens := by
  cases a with
  | charClass body =>
    have hle := CharacterClass.start_le_of_mem_sites hp
    change p.start < start + width (ClassAtom.charClass body).tokens
    have hclose : width [(ClassAtom.charClass body).closeToken] = extent [.char ']'] :=
      width_ofChar .punctuator ']'
    rw [hclose] at hle
    exact Nat.lt_of_lt_of_le (Nat.lt_add_of_pos_right (by decide)) hle
  | literal c _ => cases hp
  | pair code =>
    rw [innerSites_pair] at hp
    cases hp
  | node n e _ => cases h (.node n) List.mem_cons_self

/-- What is left of an atom stands for the same. -/
theorem cut {a : Atom} (h : Bare a.items) (hp : Picks cuts (a.tree.sites start)) :
    ∃ a' : Atom, a'.tree = a.tree ∧ Carves start a.items cuts a'.items := by
  have hwidth := width_tree h
  rcases Picks.whole_or hp (hwidth ▸ extent_pos h) fun p hp => start_lt h hp with
    ⟨g, hg, rfl⟩ | hinner
  · refine ⟨.node g _ (guises_element? hg), rfl, ?_⟩
    rw [hwidth]
    exact .whole start a.items g
  · cases a with
    | charClass body =>
      rw [items, List.cons_append, bare_cons, bare_append] at h
      obtain ⟨body', hbody, hcuts⟩ := ClassAtom.cut_body h.2.1 hinner
      refine ⟨.charClass body', congrArg RegexLiteral.Atom.characterClass hbody, ?_⟩
      have hclass := (Carves.refl start [.char '[']).append (hcuts.append (.refl _ [.char ']']))
      simpa [items] using hclass
    | literal c hc =>
      rw [hinner.eq_nil]
      exact ⟨.literal c hc, rfl, .refl _ _⟩
    | pair code =>
      rw [innerSites_pair] at hinner
      rw [hinner.eq_nil]
      exact ⟨.pair code, rfl, .refl _ _⟩
    | node n e _ => cases h (.node n) List.mem_cons_self

end Atom

/-! ## Elements -/

theorem Sigil.extent_pos (s : Sigil) : 0 < extent s.items := by
  cases s <;> exact extent_char_pos _ _

namespace Element

theorem width_tree {e : Element} (h : Bare e.items) : width e.tree.tokens = extent e.items :=
  width_eq_extent e.spelled_tree h

/-- What is left of an element stands for the same. -/
theorem cut {e : Element} (h : Bare e.items) (hp : Picks cuts (e.tree.sites start)) :
    ∃ e' : Element, e'.tree = e.tree ∧ Carves start e.items cuts e'.items := by
  have hwidth := width_tree h
  cases e with
  | atom a =>
    obtain ⟨a', htree, hcuts⟩ := Atom.cut h hp
    exact ⟨.atom a', congrArg RegexLiteral.Element.atom htree, hcuts⟩
  | repeated a s =>
    have hsigil := s.extent_pos
    obtain ⟨ha, hs⟩ := bare_append.1 h
    let q : Quantifier := ⟨a.tree, s.tree, s.min, s.max⟩
    change width (Node.quantifier q).tokens = extent (a.items ++ s.items) at hwidth
    have hatom : width a.tree.tokens = extent a.items := width_eq_extent a.spelled_tree ha
    rw [extent_append] at hwidth
    have hpos : 0 < width (Node.quantifier q).tokens := by omega
    have hstart : ∀ p ∈ a.tree.sites start,
        p.start < start + width (Node.quantifier q).tokens := by
      intro p hp
      have := RegexLiteral.Atom.start_le_of_mem_sites hp
      omega
    rcases Picks.whole_or hp hpos hstart with ⟨g, hg, rfl⟩ | hatom
    · obtain rfl := List.mem_singleton.1 hg
      refine ⟨.quantifier q, rfl, ?_⟩
      rw [hwidth, ← extent_append]
      exact .whole start (a.items ++ s.items) (.quantifier q)
    · obtain ⟨a', htree, hcuts⟩ := Atom.cut ha hatom
      refine ⟨.repeated a' s, by rw [tree, tree, htree], ?_⟩
      have := hcuts.append (.refl _ s.items)
      rwa [List.append_nil] at this
  | quantifier q => cases h (.node (.quantifier q)) List.mem_cons_self

/-- What is left of a row of elements stands for the same, and no sigil begins an element. -/
theorem cut_row : ∀ {es : List Element} {start : Nat} {cuts : List Site}, Fits es →
    Bare (es.flatMap items) →
    Picks cuts (Site.inRow Element.sites Element.tokens start (es.map tree)) →
    ∃ es', es'.map tree = es.map tree ∧ Fits es'
      ∧ Carves start (es.flatMap items) cuts (es'.flatMap items)
  | [], start, cuts, _, _, hp => by
    rw [hp.eq_nil]
    exact ⟨[], rfl, trivial, .refl start []⟩
  | e :: es, start, cuts, hfits, hbare, hp => by
    rw [List.flatMap_cons, bare_append] at hbare
    obtain ⟨before, after, rfl, hbefore, hafter⟩ := hp.split
    rw [width_tree hbare.1] at hafter
    obtain ⟨e', he', hcut⟩ := cut hbare.1 hbefore
    obtain ⟨es', hes', hfits', hcuts⟩ := cut_row hfits.2 hbare.2 hafter
    have hrow := hcut.append hcuts
    refine ⟨e' :: es', by rw [List.map_cons, List.map_cons, he', hes'], ⟨?_, hfits'⟩, hrow⟩
    -- A sigil is made of characters, and those that stand first now stood first before.
    rintro ⟨cs, hform, hprefix⟩
    exact hfits.1 ⟨cs, hform, hrow.prefix_of hprefix⟩

end Element

/-! ## Literals -/

theorem Alternative.cut {a : Alternative} (h : Bare a.items)
    (hp : Picks cuts (a.tree.sites start)) :
    ∃ a' : Alternative, a'.tree = a.tree ∧ Carves start a.items cuts a'.items := by
  obtain ⟨es', htree, hfits, hcuts⟩ := Element.cut_row a.fits h hp
  exact ⟨⟨es', hfits⟩, congrArg RegexLiteral.Alternative.mk htree, hcuts⟩

/-- The alternative behind its separator. -/
def Alternative.behind (a : Alternative) : Token × RegexLiteral.Alternative :=
  (.ofChar .punctuator '|', a.tree)

def Alternative.itemsBehind (a : Alternative) : List Item := .char '|' :: a.items

theorem Alternative.width_behind {a : Alternative} (h : Bare a.items) :
    width (a.behind.1 :: a.behind.2.tokens) = extent a.itemsBehind := by
  rw [width_cons, itemsBehind, extent_cons, behind, width_ofChar,
    width_eq_extent a.spelled_tree h]
  rfl

theorem Alternative.width_rest : ∀ {as : List Alternative}, Bare (as.flatMap itemsBehind) →
    width ((as.map behind).flatMap fun r => r.1 :: r.2.tokens) = extent (as.flatMap itemsBehind)
  | [], _ => rfl
  | a :: as, h => by
    rw [List.flatMap_cons, bare_append] at h
    rw [List.map_cons, List.flatMap_cons, List.flatMap_cons, width_append, extent_append,
      width_behind (bare_cons.1 h.1).2, width_rest h.2]

theorem Alternative.cut_rest : ∀ {as : List Alternative} {start : Nat} {cuts : List Site},
    Bare (as.flatMap itemsBehind) →
    Picks cuts (Site.inRow RegexLiteral.Alternative.sitesBehind (fun r => r.1 :: r.2.tokens) start
      (as.map behind)) →
    ∃ as' : List Alternative, as'.map behind = as.map behind
      ∧ Carves start (as.flatMap itemsBehind) cuts (as'.flatMap itemsBehind)
  | [], start, cuts, _, hp => by
    rw [hp.eq_nil]
    exact ⟨[], rfl, .refl start []⟩
  | a :: as, start, cuts, hbare, hp => by
    rw [List.flatMap_cons, bare_append, itemsBehind, bare_cons] at hbare
    obtain ⟨before, after, rfl, hbefore, hafter⟩ := hp.split
    rw [width_behind hbare.1.2] at hafter
    obtain ⟨a', ha', hcut⟩ := cut hbare.1.2 hbefore
    obtain ⟨as', has', hcuts⟩ := cut_rest hbare.2 hafter
    rw [behind, width_ofChar] at hcut
    refine ⟨a' :: as', ?_, ((Carves.refl start [.char '|']).append hcut).append hcuts⟩
    rw [List.map_cons, List.map_cons, behind, behind, ha', has']

theorem Flags.cut {f : Flags} (h : Bare f.items)
    (hp : Picks cuts (Site.whole start (.flags f.tree))) :
    ∃ f' : Flags, f'.tree = f.tree ∧ Carves start f.items cuts f'.items := by
  have hwidth : width f.tree.tokens = extent f.items := width_eq_extent f.spelled_tree h
  rcases List.sublist_cons_iff.1 hp.chosen with hnone | ⟨rest, rfl, hrest⟩
  · rw [List.sublist_nil.1 hnone]
    exact ⟨f, rfl, .refl start f.items⟩
  · rw [List.sublist_nil.1 hrest]
    refine ⟨.node f.tree, rfl, ?_⟩
    change Carves start f.items [⟨start, start + width f.tree.tokens, _⟩] _
    rw [hwidth]
    exact .whole start f.items (.flags f.tree)

theorem Pattern.cut {p : Pattern} (h : Bare p.items) (hp : Picks cuts p.tree.sites) :
    ∃ p' : Pattern, p'.tree = p.tree ∧ Carves 0 p.items cuts p'.items := by
  have hitems (p : Pattern) : p.items = [.char '/'] ++ (p.first.items
      ++ (p.rest.flatMap Alternative.itemsBehind ++ ([.char '/'] ++ p.flags.items))) := by
    simp [items]
    rfl
  rw [hitems] at h
  simp only [bare_append] at h
  obtain ⟨-, hfirst, hrest, -, hflags⟩ := h
  obtain ⟨first, after, rfl, hpfirst, hafter⟩ := hp.split
  obtain ⟨rest, flags, rfl, hprest, hpflags⟩ := hafter.split
  have hopen : width [p.tree.openToken] = extent [.char '/'] := width_ofChar .punctuator '/'
  have hclose : width [p.tree.closeToken] = extent [.char '/'] := width_ofChar .punctuator '/'
  have hwfirst : width p.tree.first.tokens = extent p.first.items :=
    width_eq_extent p.first.spelled_tree hfirst
  rw [hopen] at hpfirst
  rw [hopen, hwfirst] at hprest
  have hwrest : width (p.tree.rest.flatMap fun r => r.1 :: r.2.tokens)
      = extent (p.rest.flatMap Alternative.itemsBehind) := Alternative.width_rest hrest
  rw [RegexLiteral.Pattern.flagsStart, hopen, hwfirst, hwrest, hclose] at hpflags
  obtain ⟨first', htfirst, hcfirst⟩ := Alternative.cut hfirst hpfirst
  obtain ⟨rest', htrest, hcrest⟩ := Alternative.cut_rest hrest hprest
  obtain ⟨flags', htflags, hcflags⟩ := Flags.cut hflags hpflags
  refine ⟨⟨first', rest', flags'⟩, ?_, ?_⟩
  · have htrest : rest'.map Alternative.behind = p.tree.rest := htrest
    rw [tree, htfirst, htflags]
    change RegexLiteral.Pattern.mk _ _ (rest'.map Alternative.behind) _ _ = _
    rw [htrest]
    rfl
  · have hcuts := hcfirst.append (hcrest.append ((Carves.refl _ [.char '/']).append hcflags))
    rw [hitems, hitems]
    exact .keep hcuts

end Written

/-- What was read can be put in again. Any choice of sites in a source that is read as a literal,
none of them reaching over the start of another, can be cut out of the source with the nodes of the
sites put in, and the literal that is read then is the same. -/
theorem parse_cutOut {source : String} {p : Pattern} {cuts : List Site}
    (h : parsePattern source = .ok p) (hcuts : cuts.Sublist p.sites)
    (hapart : cuts.Pairwise fun a b => a.stop ≤ b.start) :
    ∃ t, Template.cutOut? source cuts = some t ∧ t.parse .pattern none = .ok (.pattern p) := by
  obtain ⟨hsource, w, hitems, -, rfl⟩ := (parsePattern_eq_ok_iff source p).1 h
  have hbare : Bare w.items := by
    rw [hitems]
    intro i hi
    obtain ⟨c, -, rfl⟩ := List.mem_map.1 hi
    rfl
  obtain ⟨w', htree, hcarves⟩ := Written.Pattern.cut hbare ⟨hcuts, hapart⟩
  rw [hitems] at hcarves
  obtain ⟨t, ht, hd⟩ := Carves.exists_template (w := .pattern w') hcarves hsource
  exact ⟨t, ht, Template.parse_eq_ok_iff.2
    ⟨.pattern w', rfl, hd, by simp [HasFuel], congrArg Node.pattern htree.symm⟩⟩

/-- The end of a range, as a bare escape sequence, an element that is repeated, and no flags. -/
theorem parse_cutOut_samples : ∃ p, parsePattern "/[^b-\\n]d+/" = .ok p
    ∧ (⟨"/[^b-", ["]", "+/", ""], [.escapeSequence (.ofCode 'n'), .character (.ofChar 'd'),
      .flags ⟨.none, []⟩]⟩ : Template).parse .pattern none = .ok (.pattern p) := by
  let cuts : List Site := [⟨5, 7, .escapeSequence (.ofCode 'n')⟩,
    ⟨8, 9, .character (.ofChar 'd')⟩, ⟨11, 11, .flags ⟨.none, []⟩⟩]
  have hsites : (parsePattern "/[^b-\\n]d+/").toOption.map
      (fun p => decide (cuts.Sublist p.sites)) = some true := by decide +kernel
  have hcut : Template.cutOut? "/[^b-\\n]d+/" cuts = some ⟨"/[^b-", ["]", "+/", ""],
      [.escapeSequence (.ofCode 'n'), .character (.ofChar 'd'), .flags ⟨.none, []⟩]⟩ := by
    decide +kernel
  cases hp : parsePattern "/[^b-\\n]d+/" with
  | error e =>
    rw [hp] at hsites
    cases hsites
  | ok p =>
    rw [hp] at hsites
    obtain ⟨t, ht, hparse⟩ := parse_cutOut hp (of_decide_eq_true (Option.some.inj hsites))
      (by decide)
    rw [hcut] at ht
    obtain rfl := Option.some.inj ht
    exact ⟨p, rfl, hparse⟩

end RegexLiteral
