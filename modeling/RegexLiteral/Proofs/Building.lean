import RegexLiteral.Proofs.Surplus

/-!
# Templates that are put together

A template is put together by adding text and nodes at its end. Whatever is added later, a node
keeps its number among the nodes, and its cut keeps its number and its place among the cuts
(`Template.Continues`). So the node stands at its own cut if there was a node for each cut when it
was added (`Template.embedded_node_kept`). If not, the two numbers differ, and the node stands at
the cut that has its number (`Template.embedded_node_elsewhere`).
-/

namespace RegexLiteral

theorem Lexeme.ofSegments_append (start : Nat) (before : List String) (next : String)
    (more : List String) : ∃ after, Lexeme.ofSegments start (before ++ next :: more)
      = Lexeme.ofSegments start before
        ++ ⟨start + byteSize (before.flatMap String.toList), .interpolation⟩ :: after := by
  induction before generalizing start with
  | nil => exact ⟨_, rfl⟩
  | cons s before ih =>
    obtain ⟨after, h⟩ := ih (start + byteSize s.toList)
    refine ⟨after, ?_⟩
    rw [List.cons_append, Lexeme.ofSegments, h, Lexeme.ofSegments, List.flatMap_cons,
      byteSize_append, Nat.add_assoc]
    simp

/-- The cuts in front take the nodes in front. -/
theorem itemsOf_append_append {a : List Lexeme} {ns : List Node} (ls : List Lexeme)
    (ms : List Node) (h : Lexeme.cuts a = ns.length) :
    itemsOf (a ++ ls) (ns ++ ms) = itemsOf a ns ++ itemsOf ls ms := by
  induction a generalizing ns with
  | nil =>
    obtain rfl := List.eq_nil_of_length_eq_zero h.symm
    rfl
  | cons l a ih =>
    rw [← List.singleton_append, Lexeme.cuts_append] at h
    obtain ⟨start, c | _ | run⟩ := l
    · have hk : (⟨start, .char c⟩ : Lexeme).kind ≠ .interpolation := Kind.ofChar_ne_interpolation c
      rw [Lexeme.cuts_singleton_of_ne hk, Nat.zero_add] at h
      exact congrArg _ (ih h)
    · rw [Lexeme.cuts_singleton_cut rfl] at h
      obtain ⟨n, ns, rfl⟩ := List.exists_cons_of_length_pos (h ▸ Nat.lt_add_right _ Nat.one_pos)
      rw [List.length_cons, Nat.add_comm] at h
      exact congrArg _ (ih (Nat.succ.inj h))
    · have hk : (⟨start, .terminators run⟩ : Lexeme).kind ≠ .interpolation := nofun
      rw [Lexeme.cuts_singleton_of_ne hk, Nat.zero_add] at h
      exact congrArg _ (ih h)

/-- What can be added at the end of a template. -/
inductive Addition
  | text (text : String)
  | embed (node : Node)

namespace Template

def add (t : Template) : Addition → Template
  | .text text => t.appendText text
  | .embed node => t.embed node

/-- With all of `further` added, in its order. -/
def extend (t : Template) (further : List Addition) : Template := further.foldl add t

/-- `t'` begins with `t`. Behind it stands a cut and among the nodes `node`, and behind these as
many cuts as nodes. -/
def Continues (t : Template) (node : Node) (t' : Template) : Prop :=
  ∃ next more nodes, more.length = nodes.length
    ∧ t' = ⟨t.first, t.later ++ next :: more, t.substitutions ++ node :: nodes⟩

variable {t t' : Template} {node : Node}

/-! ## Adding -/

theorem length_appendLast (first : String) (later : List String) (text : String) :
    (appendLast first later text).2.length = later.length := by
  induction later generalizing first with
  | nil => rfl
  | cons next more ih => exact congrArg Nat.succ (ih next)

/-- Text is written behind the last cut. -/
theorem appendLast_append (first : String) (before : List String) (next : String)
    (more : List String) (text : String) : appendLast first (before ++ next :: more) text
      = (first, before ++ (appendLast next more text).1 :: (appendLast next more text).2) := by
  induction before generalizing first with
  | nil => rfl
  | cons s before ih =>
    rw [List.cons_append, appendLast, ih s]
    rfl

theorem continues_embed (t : Template) (node : Node) : t.Continues node (t.embed node) :=
  ⟨"", [], [], rfl, rfl⟩

theorem Continues.add (h : t.Continues node t') (addition : Addition) :
    t.Continues node (t'.add addition) := by
  obtain ⟨next, more, nodes, hlength, rfl⟩ := h
  cases addition with
  | text text =>
    refine ⟨(appendLast next more text).1, (appendLast next more text).2, nodes, ?_, ?_⟩
    · rw [length_appendLast, hlength]
    · rw [Template.add, appendText, appendLast_append]
  | embed node' =>
    refine ⟨next, more ++ [""], nodes ++ [node'], ?_, ?_⟩
    · rw [List.length_append, List.length_append, hlength]
      rfl
    · simp [Template.add, embed]

theorem Continues.extend (h : t.Continues node t') (further : List Addition) :
    t.Continues node (t'.extend further) := by
  induction further generalizing t' with
  | nil => exact h
  | cons addition further ih => exact ih (h.add addition)

/-! ## What is added stays -/

theorem startsFrom_append (position : Nat) (before : List String) (next : String)
    (more : List String) : (startsFrom position (before ++ next :: more))[before.length]?
      = some (position + byteSize (before.flatMap String.toList)) := by
  induction before generalizing position with
  | nil => simp [startsFrom]
  | cons s before ih =>
    rw [List.cons_append, startsFrom, List.length_cons, List.getElem?_cons_succ, ih,
      List.flatMap_cons, byteSize_append, Nat.add_assoc]

theorem byteSize_source (t : Template) : byteSize t.source.toList
    = byteSize t.first.toList + byteSize (t.later.flatMap String.toList) := by
  rw [source, String.toList_ofList, segments, List.flatMap_cons, byteSize_append]

namespace Continues

theorem boundary (h : t.Continues node t') :
    t'.boundaries[t.boundaries.length]? = some (byteSize t.source.toList) := by
  obtain ⟨next, more, nodes, -, rfl⟩ := h
  rw [length_boundaries, byteSize_source]
  exact startsFrom_append _ _ _ _

theorem substitution (h : t.Continues node t') :
    t'.substitutions[t.substitutions.length]? = some node := by
  obtain ⟨next, more, nodes, -, rfl⟩ := h
  simp

theorem even_iff (h : t.Continues node t') : t'.substitutions.length = t'.boundaries.length
    ↔ t.substitutions.length = t.boundaries.length := by
  obtain ⟨next, more, nodes, hlength, rfl⟩ := h
  rw [length_boundaries, length_boundaries]
  simp only [List.length_append, List.length_cons, hlength]
  omega

theorem lexemes (h : t.Continues node t') : ∃ after,
    t'.lexemes = t.lexemes ++ ⟨byteSize t.source.toList, .interpolation⟩ :: after := by
  obtain ⟨next, more, nodes, -, rfl⟩ := h
  obtain ⟨after, h⟩ := Lexeme.ofSegments_append (byteSize t.first.toList) t.later next more
  refine ⟨after, ?_⟩
  rw [byteSize_source, Template.lexemes, h, Template.lexemes, List.append_assoc]

end Continues

/-- Where an added node ends up, whatever is added behind it. Its cut stays where it was made, and
it keeps its number among the nodes. Nodes go to the cuts with their numbers, wherever reading ends.
So if there was a node for each cut when it was added, it goes to its own cut: it is the next one
where all cuts before have been taken. Otherwise nothing is read, so in what is read it stands at
its own cut, behind all that there was when it was added. -/
theorem embedded_node_kept (t : Template) (node : Node) (further : List Addition)
    (production : Production) (fuel : Option Nat) :
    (t.extend (.embed node :: further)).boundaries[t.boundaries.length]?
        = some (byteSize t.source.toList)
    ∧ (t.extend (.embed node :: further)).substitutions[t.substitutions.length]? = some node
    ∧ Cursor.Paired (t.extend (.embed node :: further))
        ((t.extend (.embed node :: further)).ending production fuel).cursor
    ∧ (t.substitutions.length = t.boundaries.length →
      ∀ c, Cursor.Paired (t.extend (.embed node :: further)) c →
        c.spliced = t.boundaries.length → c.substitutions.head? = some node)
    ∧ ∀ n, (t.extend (.embed node :: further)).parse production fuel = .ok n →
      t.substitutions.length = t.boundaries.length
      ∧ ∃ w : Written, w.production = production ∧ w.tree = n
        ∧ ∃ after, w.items = itemsOf t.lexemes t.substitutions ++ .node node :: after := by
  have h : t.Continues node (t.extend (.embed node :: further)) :=
    (continues_embed t node).extend further
  refine ⟨h.boundary, h.substitution, paired_stop _ production fuel, fun heven c hc hnext => ?_,
    fun n hn => ?_⟩
  · rw [hc.head?_substitutions, hnext, ← heven]
    exact h.substitution
  · obtain ⟨w, hw, hd, -, rfl⟩ := parse_eq_ok_iff.1 hn
    have heven := h.even_iff.1 hd.text.1
    obtain ⟨ls, hlexemes⟩ := h.lexemes
    obtain ⟨next, more, nodes, -, hsub⟩ := h
    have hcuts : Lexeme.cuts t.lexemes = t.substitutions.length :=
      t.cuts_lexemes.trans heven.symm
    refine ⟨heven, w, hw, rfl, itemsOf ls nodes, ?_⟩
    rw [← hd.items, hlexemes, hsub, itemsOf_append_append _ _ hcuts]
    rfl

/-- A node behind a letter, and text behind the node. It is the first node and stands at the first
cut, and it is read there. -/
theorem embedded_node_kept_sample :
    let node : Node := .character (.ofCode 'n')
    let t := (ofText "/a").extend [.embed node, .text "+/g"]
    t.boundaries[0]? = some 2 ∧ t.substitutions[0]? = some node
      ∧ (t.cursor none).substitutions.head? = some node
      ∧ ∃ n, t.parse .pattern none = .ok n ∧ ∃ w : Written, w.production = .pattern ∧ w.tree = n
        ∧ ∃ after, w.items = .char '/' :: .char 'a' :: .node node :: after := by
  intro node t
  obtain ⟨n, hn⟩ : ∃ n, t.parse .pattern none = .ok n := exists_of_isOk (by decide +kernel)
  obtain ⟨hboundary, hnode, -, hnext, hread⟩ :=
    embedded_node_kept (ofText "/a") node [.text "+/g"] .pattern none
  exact ⟨hboundary, hnode, hnext rfl _ (Cursor.paired_cursor t none) rfl, n, hn, (hread n hn).2⟩

/-- A cut without a node lets a later node go astray. The flags are added with the second cut, but
they are put in at the first one, where no flags can stand, and the second one has no node. -/
theorem embedded_node_elsewhere :
    let flags : Node := .flags ⟨FlagSet.none.insert .global, [.ofChar .keyword 'g']⟩
    let t := (ofParts ["/", "/"] []).extend [.embed flags]
    t.boundaries = [1, 2] ∧ t.substitutions[1]? = none ∧ t.substitutions[0]? = some flags
      ∧ t.parse .pattern none = .error (.error ⟨.notAnElement .flags, .empty 1, []⟩) := by
  decide +kernel

end Template

end RegexLiteral
