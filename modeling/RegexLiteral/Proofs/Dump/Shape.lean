import RegexLiteral.Proofs.Dump.Line

/-!
# The shape of a dump

What a node is dumped as begins with a line that names its type, and all lines below it are labelled
(`Headed`). So the lines can be read from their text, and nodes of different types are dumped
differently.
-/

namespace RegexLiteral

/-- The type that the first line of a node names. A literal character is its token alone. -/
def headType? (content : String) : Option NodeType :=
  if content.toList.head? = some '<' then some .character
  else NodeType.all.find? fun t => t.name.toList = content.toList.takeWhile (· ≠ ' ')

/-- A first line that names the type `t`, and labelled lines below it. -/
structure Headed (t : NodeType) (depth : Nat) (label : Option String) (ls : List DumpLine) :
    Prop where
  lines : ∃ content below, ls = ⟨depth, label, content⟩ :: below ∧ headType? content = some t
    ∧ '\n' ∉ content.toList ∧ ∀ l ∈ below, l.Labelled

namespace Headed

variable {t u : NodeType} {depth : Nat} {label : Option String} {content s : String}
  {ls ms below : List DumpLine}

theorem cons (htype : headType? content = some t) (hcontent : '\n' ∉ content.toList)
    (hbelow : ∀ l ∈ below, l.Labelled) : Headed t depth label (⟨depth, label, content⟩ :: below) :=
  ⟨content, below, rfl, htype, hcontent, hbelow⟩

theorem labelled (h : Headed t depth (some s) ls) (hs : IsLabel s) : ∀ l ∈ ls, l.Labelled := by
  obtain ⟨content, below, rfl, -, hcontent, hbelow⟩ := h
  rw [List.forall_mem_cons]
  exact ⟨⟨⟨s, rfl, hs⟩, hcontent⟩, hbelow⟩

theorem isDump (h : Headed t 0 none ls) : IsDump ls := by
  obtain ⟨content, below, rfl, -, hcontent, hbelow⟩ := h
  exact ⟨content, below, rfl, hcontent, hbelow⟩

theorem exists_head (h : Headed t depth label ls) :
    ∃ l below, ls = l :: below ∧ l.label = label := by
  obtain ⟨content, below, rfl, -⟩ := h
  exact ⟨_, below, rfl, rfl⟩

theorem type_eq {x y : List DumpLine} (h : Headed t depth label ls) (h' : Headed u depth label ms)
    (heq : ls ++ x = ms ++ y) : t = u := by
  obtain ⟨content, below, rfl, ht, -⟩ := h
  obtain ⟨content', below', rfl, hu, -⟩ := h'
  obtain rfl : content = content' := by
    simpa using (List.cons.inj heq).1
  exact Option.some.inj (ht.symm.trans hu)

end Headed

/-! ## Tokens and lists -/

theorem Token.labelled_dump (t : Token) (depth : Nat) {s : String} (hs : IsLabel s) :
    (t.dump depth (some s)).Labelled :=
  ⟨⟨s, rfl, hs⟩, t.newline_not_mem_dumpText⟩

theorem labelled_dumpOptional (depth : Nat) {s : String} (hs : IsLabel s) (t : Option Token) :
    (dumpOptional depth s t).Labelled := by
  rcases t with _ | t
  · exact ⟨⟨s, rfl, hs⟩, by simp [dumpOptional]⟩
  · exact t.labelled_dump depth hs

section List

variable {α : Type} {depth : Nat} {dump : String → α → List DumpLine} {s : String}

theorem labelled_dumpListFrom (hdump : ∀ s a, IsLabel s → ∀ l ∈ dump s a, l.Labelled)
    (hs : IsLabel s) (i : Nat) (as : List α) : ∀ l ∈ dumpListFrom dump s i as, l.Labelled := by
  induction as generalizing i with
  | nil => simp [dumpListFrom]
  | cons a as ih =>
    rw [dumpListFrom, List.forall_mem_append]
    exact ⟨hdump _ a (hs.indexed i), ih (i + 1)⟩

theorem labelled_dumpList (hdump : ∀ s a, IsLabel s → ∀ l ∈ dump s a, l.Labelled)
    (hs : IsLabel s) (as : List α) : ∀ l ∈ dumpList depth dump s as, l.Labelled := by
  unfold dumpList
  split
  · rw [List.forall_mem_singleton]
    exact ⟨⟨s, rfl, hs⟩, by simp⟩
  · exact labelled_dumpListFrom hdump hs 0 _

end List

/-! ## Nodes -/

section Nodes

variable (depth : Nat) (label : Option String)

theorem EscapeSequence.headed (e : EscapeSequence) :
    Headed .escapeSequence depth label (e.dump depth label) := by
  have hcooked := Text.newline_not_mem_dumpQuoted (String.singleton e.cooked)
  apply Headed.cons
  · simp [headType?, NodeType.all, NodeType.name]
  · simp [Text.dumpQuotedChar, hcooked]
  · rw [List.forall_mem_cons, List.forall_mem_singleton]
    exact ⟨e.escape.labelled_dump _ (by simp [IsLabel]), e.code.labelled_dump _ (by simp [IsLabel])⟩

theorem Character.headed (c : Character) : Headed .character depth label (c.dump depth label) := by
  rcases c with t | e
  · apply Headed.cons
    · simp [headType?, Token.toList_dumpText]
    · exact t.newline_not_mem_dumpText
    · simp
  · apply Headed.cons
    · simp [headType?, NodeType.all, NodeType.name]
    · simp
    · exact (e.headed _ _).labelled (by simp [IsLabel])

theorem newline_not_mem_switch {s : String} (h : '\n' ∉ s.toList) (on : Bool) :
    '\n' ∉ (switch s on).toList := by
  unfold switch
  split <;> simp [h]

theorem WordCharacterSet.headed (s : WordCharacterSet) :
    Headed .wordCharacterSet depth label (s.dump depth label) := by
  have hswitch := newline_not_mem_switch (s := "negate") (by simp) s.isNegated
  apply Headed.cons
  · simp [headType?, NodeType.all, NodeType.name]
  · simp [hswitch]
  · rw [List.forall_mem_cons, List.forall_mem_singleton]
    exact ⟨s.escapeToken.labelled_dump _ (by simp [IsLabel]),
      s.value.labelled_dump _ (by simp [IsLabel])⟩

theorem Gap.headed (g : Gap) : Headed .gap depth label (g.dump depth label) := by
  apply Headed.cons
  · simp [headType?, NodeType.all, NodeType.name]
  · simp
  · rw [List.forall_mem_cons, List.forall_mem_singleton]
    exact ⟨g.escapeToken.labelled_dump _ (by simp [IsLabel]),
      g.value.labelled_dump _ (by simp [IsLabel])⟩

theorem CharacterClassRange.headed (r : CharacterClassRange) :
    Headed .characterClassRange depth label (r.dump depth label) := by
  simp only [dump, List.cons_append]
  apply Headed.cons
  · simp [headType?, NodeType.all, NodeType.name]
  · simp
  · rw [List.forall_mem_append, List.forall_mem_cons]
    exact ⟨(r.min.headed _ _).labelled (by simp [IsLabel]),
      r.sigilToken.labelled_dump _ (by simp [IsLabel]),
      (r.max.headed _ _).labelled (by simp [IsLabel])⟩

theorem ClassElement.headed (e : ClassElement) :
    Headed e.type depth label (e.dump depth label) := by
  cases e with
  | character c => exact c.headed depth label
  | range r => exact r.headed depth label
  | wordCharacterSet s => exact s.headed depth label

theorem CharacterClass.headed (c : CharacterClass) :
    Headed .characterClass depth label (c.dump depth label) := by
  have hswitch := newline_not_mem_switch (s := "negate") (by simp) c.isNegated
  simp only [dump, List.cons_append]
  apply Headed.cons
  · simp [headType?, NodeType.all, NodeType.name]
  · simp [hswitch]
  · simp only [List.forall_mem_append, List.forall_mem_cons]
    exact ⟨c.openToken.labelled_dump _ (by simp [IsLabel]),
      labelled_dumpOptional _ (by simp [IsLabel]) _,
      labelled_dumpList (fun s e hs => (e.headed _ _).labelled hs) (by simp [IsLabel]) _,
      c.closeToken.labelled_dump _ (by simp [IsLabel]), List.forall_mem_nil _⟩

theorem Braces.labelled_dump (b : Braces) {s : String} (hs : IsLabel s) :
    ∀ l ∈ b.dump depth (some s), l.Labelled := by
  rw [Braces.dump, List.forall_mem_cons]
  refine ⟨⟨⟨s, rfl, hs⟩, by simp⟩, ?_⟩
  simp only [List.forall_mem_cons]
  exact ⟨b.openToken.labelled_dump _ (by simp [IsLabel]),
    b.minToken.labelled_dump _ (by simp [IsLabel]), labelled_dumpOptional _ (by simp [IsLabel]) _,
    labelled_dumpOptional _ (by simp [IsLabel]) _, b.closeToken.labelled_dump _ (by simp [IsLabel]),
    List.forall_mem_nil _⟩

theorem Sigil.labelled_dump (s : Sigil) : ∀ l ∈ s.dump depth, l.Labelled := by
  rcases s with t | b
  · rw [Sigil.dump, List.forall_mem_singleton]
    exact t.labelled_dump _ (by simp [IsLabel])
  · exact b.labelled_dump _ (by simp [IsLabel])

theorem Atom.headed (a : Atom) : Headed a.type depth label (a.dump depth label) := by
  cases a with
  | character c => exact c.headed depth label
  | characterClass c => exact c.headed depth label
  | wordCharacterSet s => exact s.headed depth label
  | gap g => exact g.headed depth label

theorem Bound.newline_not_mem_text (b : Bound) : '\n' ∉ b.text.toList := by
  rcases b with n | _
  · simpa [text] using not_mem_toDigits (c := '\n') (by simp) n
  · simp [text]

theorem Quantifier.headed (q : Quantifier) :
    Headed .quantifier depth label (q.dump depth label) := by
  have hmin := not_mem_toDigits (c := '\n') (by simp) q.min
  have hmax := q.max.newline_not_mem_text
  simp only [dump, List.cons_append]
  apply Headed.cons
  · simp [headType?, NodeType.all, NodeType.name]
  · simp [hmin, hmax]
  · rw [List.forall_mem_append]
    exact ⟨(q.atom.headed _ _).labelled (by simp [IsLabel]), q.sigil.labelled_dump _⟩

theorem Element.headed (e : Element) : Headed e.type depth label (e.dump depth label) := by
  cases e with
  | atom a => exact a.headed depth label
  | quantifier q => exact q.headed depth label

theorem Alternative.headed (a : Alternative) :
    Headed .alternative depth label (a.dump depth label) := by
  apply Headed.cons
  · simp [headType?, NodeType.all, NodeType.name]
  · simp
  · exact labelled_dumpList (fun s e hs => (e.headed _ _).labelled hs) (by simp [IsLabel]) _

theorem Flags.headed (f : Flags) : Headed .flags depth label (f.dump depth label) := by
  have hswitch (flag : Flag) : '\n' ∉ (switch flag.name (f.set.has flag)).toList :=
    newline_not_mem_switch (by cases flag <;> simp [Flag.name]) _
  apply Headed.cons
  · simp [headType?, NodeType.all, NodeType.name, Flag.all]
  · simp [Flag.all, hswitch]
  · exact labelled_dumpList (fun s t hs => by simpa using t.labelled_dump _ hs)
      (by simp [IsLabel]) _

namespace Pattern

theorem labelled_dumpRest (i : Nat) (rest : List (Token × Alternative)) :
    ∀ l ∈ dumpRest depth i rest, l.Labelled := by
  induction rest generalizing i with
  | nil => simp [dumpRest]
  | cons pair more ih =>
    obtain ⟨separator, a⟩ := pair
    simp only [dumpRest, List.forall_mem_append, List.forall_mem_cons]
    have hseparators : IsLabel "separatorTokens" := by simp [IsLabel]
    have halternatives : IsLabel "alternatives" := by simp [IsLabel]
    exact ⟨⟨separator.labelled_dump _ (hseparators.indexed i),
      (a.headed _ _).labelled (halternatives.indexed (i + 1))⟩, ih (i + 1)⟩

theorem headed (p : Pattern) : Headed .pattern depth label (p.dump depth label) := by
  have halternatives : IsLabel "alternatives" := by simp [IsLabel]
  have hnone : (DumpLine.mk (depth + 1) (some "separatorTokens") "[]").Labelled :=
    ⟨⟨_, rfl, by simp [IsLabel]⟩, by simp⟩
  simp only [dump, List.cons_append, List.append_assoc]
  apply Headed.cons
  · simp [headType?, NodeType.all, NodeType.name]
  · simp
  · simp only [List.forall_mem_append, List.forall_mem_cons]
    refine ⟨p.openToken.labelled_dump _ (by simp [IsLabel]),
      (p.first.headed _ _).labelled (halternatives.indexed 0), labelled_dumpRest _ 0 p.rest, ?_,
      p.closeToken.labelled_dump _ (by simp [IsLabel]),
      (p.flags.headed _ _).labelled (by simp [IsLabel])⟩
    split
    · rwa [List.forall_mem_singleton]
    · simp

end Pattern

end Nodes

theorem Node.headed (n : Node) : Headed n.type 0 none n.dumpLines := by
  cases n with
  | pattern p => exact p.headed 0 none
  | alternative a => exact a.headed 0 none
  | character c => exact c.headed 0 none
  | characterClass c => exact c.headed 0 none
  | characterClassRange r => exact r.headed 0 none
  | quantifier q => exact q.headed 0 none
  | flags f => exact f.headed 0 none
  | escapeSequence e => exact e.headed 0 none
  | wordCharacterSet s => exact s.headed 0 none
  | gap g => exact g.headed 0 none

end RegexLiteral
