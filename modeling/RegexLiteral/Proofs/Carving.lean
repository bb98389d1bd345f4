import RegexLiteral.Proofs.Grammar
import RegexLiteral.Proofs.Lossless
import RegexLiteral.Proofs.Site

/-!
# Cutting parts out of a row of items

To carve sites out of a row of items is to put the node of each site where the items of that site
stood (`Carves`). What is carved out of two rows is carved out of one behind the other, and the
items of a source with the sites carved out are those of the template that is left of the source
(`Carves.exists_template`). A choice of sites is picked if none of them reaches over the start of
the next one (`Picks`).
-/

namespace RegexLiteral

/-- The items that are left of those from `start` on. -/
inductive Carves : Nat → List Item → List Site → List Item → Prop
  | nil (start : Nat) : Carves start [] [] []
  | keep {start : Nat} {i : Item} {is js : List Item} {cuts : List Site}
    (h : Carves (start + byteSize i.chars) is cuts js) : Carves start (i :: is) cuts (i :: js)
  | cut {start : Nat} {chunk is js : List Item} {cuts : List Site} (n : Node)
    (h : Carves (start + extent chunk) is cuts js) :
    Carves start (chunk ++ is) (⟨start, start + extent chunk, n⟩ :: cuts) (.node n :: js)

namespace Carves

variable {start : Nat} {is js is' js' : List Item} {cuts cuts' : List Site}

theorem refl (start : Nat) : ∀ is : List Item, Carves start is [] is
  | [] => nil start
  | _ :: is => keep (refl _ is)

theorem whole (start : Nat) (is : List Item) (n : Node) :
    Carves start is [⟨start, start + extent is, n⟩] [.node n] := by
  have h : Carves start (is ++ []) [⟨start, start + extent is, n⟩] [.node n] := cut n (nil _)
  rwa [List.append_nil] at h

theorem append (h : Carves start is cuts js) (h' : Carves (start + extent is) is' cuts' js') :
    Carves start (is ++ is') (cuts ++ cuts') (js ++ js') := by
  induction h with
  | nil start => exact h'
  | keep _ ih =>
    rw [extent_cons, ← Nat.add_assoc] at h'
    exact keep (ih h')
  | cut n _ ih =>
    rw [extent_append, ← Nat.add_assoc] at h'
    rw [List.append_assoc]
    exact cut n (ih h')

/-- Characters that stand first stood first before. -/
theorem prefix_of (h : Carves start is cuts js) : ∀ {cs : List Char}, cs.map .char <+: js →
    cs.map .char <+: is := by
  induction h with
  | nil => exact fun h => h
  | keep _ ih =>
    intro cs hcs
    cases cs with
    | nil => exact List.nil_prefix
    | cons c cs =>
      rw [List.map_cons, List.cons_prefix_cons] at hcs ⊢
      exact ⟨hcs.1, ih hcs.2⟩
  | cut n _ _ =>
    intro cs hcs
    cases cs with
    | nil => exact List.nil_prefix
    | cons c cs => simp at hcs

theorem mem (h : Carves start is cuts js) {j : Item} (hj : j ∈ js) :
    j ∈ is ∨ ∃ n, j = .node n := by
  induction h with
  | nil => exact .inl hj
  | keep _ ih =>
    rcases List.mem_cons.1 hj with rfl | hj
    · exact .inl List.mem_cons_self
    · exact (ih hj).imp_left (List.mem_cons_of_mem _)
  | cut n _ ih =>
    rcases List.mem_cons.1 hj with rfl | hj
    · exact .inr ⟨n, rfl⟩
    · exact (ih hj).imp_left (List.mem_append_right _)

/-! ## Templates -/

/-- The items of segments that are each preceded by a node. -/
def filled : List Node → List String → List Item
  | n :: ns, s :: later => .node n :: (s.toList.map .char ++ filled ns later)
  | _, _ => []

theorem itemsOf_ofSegments (start : Nat) : ∀ {ns : List Node} {later : List String},
    ns.length = later.length → (∀ i ∈ filled ns later, i.kind ≠ .garbage) →
    itemsOf (Lexeme.ofSegments start later) ns = filled ns later
      ∧ ns = (filled ns later).filterMap Item.node?
  | [], [], _, _ => ⟨rfl, rfl⟩
  | n :: ns, s :: later, hlen, hclean => by
    have hs : ∀ c ∈ s.toList, ¬ isLineTerminator c := fun c hc hterm =>
      hclean (.char c) (List.mem_cons_of_mem _ (List.mem_append_left _ (List.mem_map_of_mem hc)))
        (Kind.ofChar_eq_garbage_iff.2 hterm)
    obtain ⟨hitems, hnodes⟩ := itemsOf_ofSegments (start + byteSize s.toList) (Nat.succ.inj hlen)
      fun i hi => hclean i (List.mem_cons_of_mem _ (List.mem_append_right _ hi))
    constructor
    · change Item.node n :: itemsOf (Lexeme.ofSegment start s.toList ++ _) ns = _
      rw [itemsOf_append _ _ fun l hl => piece_of_mem_ofSegment hl, itemsOf_ofSegment hs, hitems,
        filled]
    · change n :: ns = n :: (_ ++ _ : List Item).filterMap Item.node?
      rw [List.filterMap_append, filterMap_node?_map_char, List.nil_append, ← hnodes]

/-- The segments have the characters that are not carved out, and the nodes stand between them. -/
theorem exists_segments (h : Carves start is cuts js) : ∀ before pre cs : List Char,
    is = cs.map .char → byteSize (before ++ pre) = start →
    ∃ first later, Template.segmentsFrom? (before ++ pre ++ cs) (byteSize before) cuts
        = some (String.ofList (pre ++ first), later)
      ∧ js = first.map .char ++ filled (cuts.map Site.node) later
      ∧ cuts.length = later.length := by
  induction h with
  | nil start =>
    intro before pre cs hcs _
    obtain rfl := List.map_eq_nil_iff.1 hcs.symm
    have hslice := Span.slice?_append before pre []
    refine ⟨[], [], ?_, rfl, rfl⟩
    rw [List.append_nil] at hslice ⊢
    rw [Template.segmentsFrom?, hslice, List.append_nil]
    rfl
  | keep _ ih =>
    -- `before` lies in segments that are finished, `pre` in the one that is being put together.
    intro before pre cs hcs hstart
    obtain ⟨c, cs, rfl, rfl, rfl⟩ := List.map_eq_cons_iff.1 hcs.symm
    obtain ⟨first, later, hsegments, hjs, hlen⟩ := ih before (pre ++ [c]) cs rfl
      (by simp [← hstart, Item.chars, Nat.add_assoc])
    refine ⟨c :: first, later, ?_, congrArg _ hjs, hlen⟩
    simpa using hsegments
  | @cut start chunk is js cuts n _ ih =>
    intro before pre cs hcs hstart
    obtain ⟨ds, cs, rfl, rfl, rfl⟩ := List.map_eq_append_iff.1 hcs.symm
    obtain ⟨first, later, hsegments, hjs, hlen⟩ := ih (before ++ pre ++ ds) [] cs rfl
      (by simp [← hstart, Nat.add_assoc])
    refine ⟨[], String.ofList first :: later, ?_, ?_, congrArg Nat.succ hlen⟩
    · have hslice := Span.slice?_append before pre (ds ++ cs)
      have hstop : start + extent (ds.map .char) = byteSize (before ++ pre ++ ds) := by
        simp [← hstart, Nat.add_assoc]
      rw [List.append_nil, List.append_assoc] at hsegments
      rw [Template.segmentsFrom?, ← hstart, hslice, hstart, hstop, hsegments, List.append_nil]
      rfl
    · rw [hjs]
      simp [filled]

/-- The template that is left of a source has the items that are left of its characters. -/
theorem exists_template {source : String} {w : Written}
    (h : Carves 0 (source.toList.map .char) cuts w.items)
    (hsource : ∀ c ∈ source.toList, ¬ isLineTerminator c) :
    ∃ t, Template.cutOut? source cuts = some t ∧ w.Derives t := by
  obtain ⟨first, later, hsegments, hitems, hlen⟩ := h.exists_segments [] [] source.toList rfl rfl
  have hclean : ∀ i ∈ w.items, i.kind ≠ .garbage := by
    intro i hi hk
    rcases h.mem hi with hi | ⟨n, rfl⟩
    · obtain ⟨c, hc, rfl⟩ := List.mem_map.1 hi
      exact hsource c hc (Kind.ofChar_eq_garbage_iff.1 hk)
    · cases hk
  have hfirst : ∀ c ∈ first, ¬ isLineTerminator c := fun c hc hterm =>
    hclean (.char c) (hitems ▸ List.mem_append_left _ (List.mem_map_of_mem hc))
      (Kind.ofChar_eq_garbage_iff.2 hterm)
  obtain ⟨hlater, hnodes⟩ := itemsOf_ofSegments (byteSize first)
    ((List.length_map _).trans hlen) fun i hi =>
      hclean i (hitems ▸ List.mem_append_right _ hi)
  refine ⟨⟨String.ofList first, later, cuts.map Site.node⟩, ?_, ?_, hclean, ?_⟩
  · rw [Template.cutOut?]
    simp only [List.nil_append, byteSize_nil] at hsegments
    rw [hsegments]
    rfl
  · rw [Template.lexemes, itemsOf_append _ _ fun l hl => piece_of_mem_ofSegment hl,
      String.toList_ofList, itemsOf_ofSegment hfirst, hlater, hitems]
  · rw [hitems, List.filterMap_append, filterMap_node?_map_char, List.nil_append]
    exact hnodes

end Carves

/-! ## Choosing sites -/

/-- The sites are chosen from `sites`, and none of them reaches over the start of the next. -/
structure Picks (cuts sites : List Site) : Prop where
  chosen : cuts.Sublist sites
  apart : cuts.Pairwise fun a b => a.stop ≤ b.start

namespace Picks

variable {cuts sites sites' : List Site} {start : Nat} {n : Node}

theorem eq_nil (h : Picks cuts []) : cuts = [] := List.sublist_nil.1 h.chosen

theorem split (h : Picks cuts (sites ++ sites')) :
    ∃ before after, cuts = before ++ after ∧ Picks before sites ∧ Picks after sites' := by
  obtain ⟨before, after, rfl, hb, ha⟩ := List.sublist_append_iff.1 h.chosen
  obtain ⟨hpb, hpa, -⟩ := List.pairwise_append.1 h.apart
  exact ⟨before, after, rfl, ⟨hb, hpb⟩, ⟨ha, hpa⟩⟩

/-- Nothing else is picked in a node that is picked whole. -/
theorem whole_or (h : Picks cuts (Site.whole start n ++ sites)) (hn : 0 < width n.tokens)
    (hsites : ∀ p ∈ sites, p.start < start + width n.tokens) :
    (∃ g ∈ n.guises, cuts = [⟨start, start + width n.tokens, g⟩]) ∨ Picks cuts sites := by
  obtain ⟨before, after, rfl, hb, ha⟩ := h.split
  cases before with
  | nil => exact .inr ha
  | cons p before =>
    obtain ⟨g, hg, rfl⟩ := List.mem_map.1 (hb.chosen.subset List.mem_cons_self)
    have hapart := (List.pairwise_cons.1 h.apart).1
    have hnone : before ++ after = [] := by
      refine List.eq_nil_iff_forall_not_mem.2 fun q hq => ?_
      have hle : start + width n.tokens ≤ q.start := hapart q hq
      rcases List.mem_append.1 hq with hq | hq
      · obtain ⟨g', -, rfl⟩ := List.mem_map.1 (hb.chosen.subset (List.mem_cons_of_mem _ hq))
        dsimp only at hle
        omega
      · have := hsites q (ha.chosen.subset hq)
        omega
    exact .inl ⟨g, hg, by rw [List.cons_append, hnone]⟩

end Picks

end RegexLiteral
