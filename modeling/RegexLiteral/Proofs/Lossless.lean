import RegexLiteral.Proofs.Derivation
import RegexLiteral.Proofs.Spelling

/-!
# Nothing is lost

A cut without a node stands in no derivation, and a derivation leaves no node over. So what is read
has as many nodes as cuts, and its text is the source with the text of each node at its cut
(`Template.text_eq_of_parse`).
-/

namespace RegexLiteral

/-! ## Cuts without a node -/

namespace Written

theorem ClassAtom.missing_not_mem (a : ClassAtom) : .missing ∉ a.items := by
  cases a <;> simp [items]

theorem Atom.missing_not_mem (a : Atom) : .missing ∉ a.items := by
  cases a with
  | charClass body =>
    simp only [items, List.cons_append, List.mem_cons, List.mem_append, List.mem_flatMap,
      List.not_mem_nil, or_false, reduceCtorEq, false_or]
    intro hex
    obtain ⟨a, -, ha⟩ := hex
    exact a.missing_not_mem ha
  | _ => simp [items]

theorem Sigil.missing_not_mem (s : Sigil) : .missing ∉ s.items := by
  cases s <;> simp [items, Number.items]

theorem Element.missing_not_mem (e : Element) : .missing ∉ e.items := by
  cases e with
  | atom a => exact a.missing_not_mem
  | repeated a s => exact fun h => (List.mem_append.1 h).elim a.missing_not_mem s.missing_not_mem
  | quantifier q => simp [items]

theorem Alternative.missing_not_mem (a : Alternative) : .missing ∉ a.items := by
  intro h
  obtain ⟨e, -, he⟩ := List.mem_flatMap.1 h
  exact e.missing_not_mem he

theorem Flags.missing_not_mem (f : Flags) : .missing ∉ f.items := by
  cases f <;> simp [items]

theorem Pattern.missing_not_mem (p : Pattern) : .missing ∉ p.items := by
  simp only [items, List.cons_append, List.mem_cons, List.mem_append, List.mem_flatMap,
    List.append_assoc, reduceCtorEq, false_or, not_or]
  refine ⟨p.first.missing_not_mem, ?_, p.flags.missing_not_mem⟩
  intro hex
  obtain ⟨a, -, ha⟩ := hex
  exact a.missing_not_mem ha

end Written

theorem Written.missing_not_mem (w : Written) : .missing ∉ w.items := by
  cases w with
  | pattern p => exact p.missing_not_mem
  | flags f => exact f.missing_not_mem

/-! ## Segments -/

/-- The lexemes of a segment are no cuts. -/
theorem piece_of_mem_ofSegment : ∀ {start : Nat} {cs : List Char} {l : Lexeme},
    l ∈ Lexeme.ofSegment start cs → l.piece ≠ .interpolation
  | _, [], l, hl => absurd hl List.not_mem_nil
  | start, c :: cs, l, hl => by
    have ih {l} (hl : l ∈ Lexeme.ofSegment (start + c.utf8Size) cs) := piece_of_mem_ofSegment hl
    rw [Lexeme.ofSegment] at hl
    unfold Lexeme.prepend at hl
    split at hl
    · split at hl
      · rename_i s run more hmore
        rw [hmore] at ih
        rcases List.mem_cons.1 hl with rfl | hl
        · simp
        · exact ih (List.mem_cons_of_mem _ hl)
      · rcases List.mem_cons.1 hl with rfl | hl
        · simp
        · exact ih hl
    · rcases List.mem_cons.1 hl with rfl | hl
      · simp
      · exact ih hl

/-- Lexemes that are no cuts take no node. -/
theorem itemsOf_append : ∀ {a : List Lexeme} (ls : List Lexeme) (ns : List Node),
    (∀ l ∈ a, l.piece ≠ .interpolation) →
    itemsOf (a ++ ls) ns = itemsOf a [] ++ itemsOf ls ns
  | [], _, _, _ => rfl
  | ⟨_, .char _⟩ :: _, ls, ns, h =>
    congrArg _ (itemsOf_append ls ns fun l hl => h l (List.mem_cons_of_mem _ hl))
  | ⟨_, .terminators _⟩ :: _, ls, ns, h =>
    congrArg _ (itemsOf_append ls ns fun l hl => h l (List.mem_cons_of_mem _ hl))
  | ⟨_, .interpolation⟩ :: _, _, _, h => absurd rfl (h _ List.mem_cons_self)

theorem itemsOf_text : ∀ {a : List Lexeme}, (∀ l ∈ a, l.piece ≠ .interpolation) →
    written (itemsOf a []) = a.flatMap Lexeme.chars ∧ (itemsOf a []).filterMap Item.node? = []
  | [], _ => ⟨rfl, rfl⟩
  | ⟨_, .char c⟩ :: a, h => by
    obtain ⟨hw, hn⟩ := itemsOf_text fun l hl => h l (List.mem_cons_of_mem _ hl)
    exact ⟨by rw [itemsOf, written_cons, hw]; rfl, hn⟩
  | ⟨_, .terminators run⟩ :: a, h => by
    obtain ⟨hw, hn⟩ := itemsOf_text fun l hl => h l (List.mem_cons_of_mem _ hl)
    exact ⟨by rw [itemsOf, written_cons, hw]; rfl, hn⟩
  | ⟨_, .interpolation⟩ :: _, h => absurd rfl (h _ List.mem_cons_self)

namespace Template

/-- The segments, with the text of each node between the two that it stands between. -/
def filledText (t : Template) : String :=
  t.first ++ String.join (List.zipWith (fun n segment => n.text ++ segment) t.substitutions t.later)

theorem length_boundaries (t : Template) : t.boundaries.length = t.later.length := by
  have h : ∀ (ss : List String) (position : Nat), (startsFrom position ss).length = ss.length := by
    intro ss
    induction ss with
    | nil => exact fun _ => rfl
    | cons s ss ih => exact fun position => congrArg Nat.succ (ih _)
  exact h t.later _

/-- The segments behind the cuts, where each cut takes a node and no node is left over. -/
theorem written_ofSegments : ∀ {later : List String} {start : Nat} {ns : List Node},
    .missing ∉ itemsOf (Lexeme.ofSegments start later) ns →
    ns = (itemsOf (Lexeme.ofSegments start later) ns).filterMap Item.node? →
    ns.length = later.length ∧ written (itemsOf (Lexeme.ofSegments start later) ns)
      = (List.zipWith (fun n segment => n.text ++ segment) ns later).flatMap String.toList
  | [], _, ns, _, hn => by
    obtain rfl : ns = [] := hn
    exact ⟨rfl, rfl⟩
  | s :: later, start, [], hm, _ => by
    refine absurd ?_ hm
    exact List.mem_cons_self
  | s :: later, start, n :: ns, hm, hn => by
    have htext : ∀ l ∈ Lexeme.ofSegment start s.toList, l.piece ≠ .interpolation :=
      fun l hl => piece_of_mem_ofSegment hl
    obtain ⟨hw, hnone⟩ := itemsOf_text htext
    have hitems : itemsOf (Lexeme.ofSegments start (s :: later)) (n :: ns)
        = .node n :: (itemsOf (Lexeme.ofSegment start s.toList) []
          ++ itemsOf (Lexeme.ofSegments (start + byteSize s.toList) later) ns) :=
      congrArg _ (itemsOf_append _ ns htext)
    rw [hitems] at hm hn ⊢
    replace hn : ns = (itemsOf (Lexeme.ofSegments (start + byteSize s.toList) later) ns).filterMap
        Item.node? := by simpa [Item.node?, hnone] using hn
    have hm' : .missing ∉ itemsOf (Lexeme.ofSegments (start + byteSize s.toList) later) ns :=
      fun h => hm (List.mem_cons_of_mem _ (List.mem_append_right _ h))
    obtain ⟨hlen, hwritten⟩ := written_ofSegments hm' hn
    refine ⟨congrArg Nat.succ hlen, ?_⟩
    rw [written_cons, written_append, hw, hwritten, Lexeme.flatMap_chars_ofSegment]
    simp [Item.written]

end Template

/-- What is read has as many nodes as cuts, and its text is that of the template. -/
theorem Written.Derives.text {w : Written} {t : Template} (h : w.Derives t) :
    t.substitutions.length = t.boundaries.length ∧ w.tree.text = t.filledText := by
  have htext : ∀ l ∈ Lexeme.ofSegment 0 t.first.toList, l.piece ≠ .interpolation :=
    fun l hl => piece_of_mem_ofSegment hl
  obtain ⟨hw, hnone⟩ := itemsOf_text htext
  have hitems := h.items
  rw [Template.lexemes, itemsOf_append _ _ htext] at hitems
  have hm := w.missing_not_mem
  have hn := h.nodes
  rw [← hitems] at hm hn
  rw [List.filterMap_append, hnone, List.nil_append] at hn
  obtain ⟨hlen, hwritten⟩ :=
    Template.written_ofSegments (fun h => hm (List.mem_append_right _ h)) hn
  refine ⟨hlen.trans t.length_boundaries.symm, ?_⟩
  apply String.toList_injective
  rw [toList_text_tree, ← hitems, written_append, hw, hwritten, Lexeme.flatMap_chars_ofSegment]
  simp [Template.filledText]

namespace Template

/-- Reading loses nothing: each node is put in at its own cut, and the text of what is read is the
source with the texts of the nodes. A source without cuts is its own text, and reading that text
again gives the same node. -/
theorem text_eq_of_parse {t : Template} {production : Production} {fuel : Option Nat} {n : Node}
    (h : t.parse production fuel = .ok n) :
    t.substitutions.length = t.boundaries.length ∧ n.text = t.filledText
      ∧ (t.boundaries = [] → n.text = t.source ∧ (ofText n.text).parse production fuel = .ok n
        ∧ (ofText n.text).parse production none = .ok n) := by
  obtain ⟨w, hw, hd, hfuel, rfl⟩ := parse_eq_ok_iff.1 h
  obtain ⟨hlen, htext⟩ := hd.text
  refine ⟨hlen, htext, fun hb => ?_⟩
  have hlater : t.later = [] := by
    rw [← List.length_eq_zero_iff, ← length_boundaries, hb]
    rfl
  have hnodes : t.substitutions = [] := by
    rw [← List.length_eq_zero_iff, hlen, hb]
    rfl
  have hfirst : w.tree.text = t.first := by
    rw [htext, filledText, hlater, hnodes]
    simp
  have ht : ofText w.tree.text = t := by
    rw [hfirst, ofText]
    obtain ⟨first, later, nodes⟩ := t
    obtain rfl : later = [] := hlater
    obtain rfl : nodes = [] := hnodes
    rfl
  refine ⟨?_, by rw [ht]; exact h, ?_⟩
  · rw [hfirst]
    apply String.toList_injective
    rw [toList_source, segments, hlater]
    simp
  · rw [ht]
    exact parse_eq_ok_iff.2 ⟨w, hw, hd, by simp [HasFuel], rfl⟩

theorem text_eq_of_parse_embedded :
    (∃ n, (⟨"/x", ["+/g"], [.character (.ofCode 'n')]⟩ : Template).parse .pattern none = .ok n
      ∧ n.text = "/x\\n+/g")
    ∧ ∃ n, (ofText "/[a-z]\x7b2,\x7d/").parse .pattern (some 12) = .ok n
      ∧ (ofText n.text).parse .pattern none = .ok n := by
  constructor
  · obtain ⟨n, hn⟩ : ∃ n, (⟨"/x", ["+/g"], [.character (.ofCode 'n')]⟩ : Template).parse .pattern
        none = .ok n := exists_of_isOk (by decide +kernel)
    exact ⟨n, hn, (text_eq_of_parse hn).2.1.trans (by decide +kernel)⟩
  · obtain ⟨n, hn⟩ : ∃ n, (ofText "/[a-z]\x7b2,\x7d/").parse .pattern (some 12) = .ok n :=
      exists_of_isOk (by decide +kernel)
    exact ⟨n, hn, ((text_eq_of_parse hn).2.2 rfl).2.2⟩

end Template

end RegexLiteral
