import RegexLiteral.Proofs.Lexing
import RegexLiteral.Proofs.Metered
import RegexLiteral.Proofs.Stepwise

/-!
# Cuts and nodes in a run

A run takes the cuts of a template in their order, and for each of them the next node. So the number
of the nodes that have been put in is the number of the cuts that have been taken
(`Cursor.Paired`), and the node of a cut is the one with the same number. That holds wherever a run
without a fault gets to, since every way to take a lexeme looks at it first, or makes a token of its
text, and a cut has none (`stepwise_pairs`).

If there is a node for each cut, no step can tell that there are more nodes behind them, neither
when it takes one nor when it looks ahead.
-/

namespace RegexLiteral

namespace Lexeme

/-- The number of the cuts among lexemes. -/
def cuts (ls : List Lexeme) : Nat := (ls.filter (·.kind == .interpolation)).length

@[simp] theorem cuts_nil : cuts [] = 0 := rfl

theorem cuts_append (a b : List Lexeme) : cuts (a ++ b) = cuts a + cuts b := by
  simp [cuts]

theorem cuts_singleton_cut {l : Lexeme} (h : l.kind = .interpolation) : cuts [l] = 1 := by
  simp [cuts, h]

theorem cuts_singleton_of_ne {l : Lexeme} (h : l.kind ≠ .interpolation) : cuts [l] = 0 := by
  simp [cuts, h]

theorem eq_of_kind_interpolation {l : Lexeme} (h : l.kind = .interpolation) :
    l = ⟨l.start, .interpolation⟩ := by
  obtain ⟨start, c | _ | run⟩ := l
  · exact absurd h (Kind.ofChar_ne_interpolation c)
  · rfl
  · cases h

end Lexeme

theorem Template.cuts_lexemes (t : Template) : Lexeme.cuts t.lexemes = t.boundaries.length := by
  rw [Lexeme.cuts, t.filter_interpolation_lexemes, List.length_map]

/-- An error about the node of a cut stands at the cut, and is about the node of that number. -/
def ParseError.AtCut (t : Template) (e : ParseError) : Prop :=
  match e.cause with
  | .noSubtree i => i = t.substitutions.length
    ∧ ∃ position, t.boundaries[i]? = some position ∧ e = ⟨.noSubtree i, .empty position, []⟩
  | .notAnElement type | .notAClassElement type | .notFlags type =>
    ∃ (i position : Nat) (node : Node), t.boundaries[i]? = some position
      ∧ t.substitutions[i]? = some node ∧ node.type = type ∧ e.span = .empty position
  | _ => True

theorem ParseError.atCut_of_not_isOfNode {t : Template} {e : ParseError}
    (h : e.cause.isOfNode = false) : e.AtCut t := by
  obtain ⟨cause, span, related⟩ := e
  cases cause <;> trivial

namespace Cursor

/-- As many nodes have been put in as cuts have been taken. -/
structure Paired (t : Template) (c : Cursor) : Prop where
  lexemes : ∃ taken, t.lexemes = taken ++ c.lexemes ∧ Lexeme.cuts taken = c.spliced
  substitutions : c.substitutions = t.substitutions.drop c.spliced
  spliced_le : c.spliced ≤ t.substitutions.length
  source : c.source = t.source.toList

/-- With more nodes behind those that are left. -/
def withMore (more : List Node) (c : Cursor) : Cursor :=
  { c with substitutions := c.substitutions ++ more }

variable {t : Template} {c : Cursor}

theorem paired_cursor (t : Template) (fuel : Option Nat) : (t.cursor fuel).Paired t where
  lexemes := ⟨[], rfl, rfl⟩
  substitutions := rfl
  spliced_le := Nat.zero_le _
  source := rfl

namespace Paired

/-- The cuts that are left are those behind the ones that nodes were put in at. -/
theorem cuts_left (h : c.Paired t) : c.spliced + Lexeme.cuts c.lexemes = t.boundaries.length := by
  obtain ⟨taken, hsplit, hcuts⟩ := h.lexemes
  rw [← t.cuts_lexemes, hsplit, Lexeme.cuts_append, hcuts]

theorem head?_substitutions (h : c.Paired t) :
    c.substitutions.head? = t.substitutions[c.spliced]? := by
  rw [h.substitutions, List.head?_drop]

/-- At a cut stands the boundary with the number of the next node. -/
theorem exists_boundary (h : c.Paired t) {l : Lexeme} {rest : List Lexeme}
    (hl : c.lexemes = l :: rest) (hk : l.kind = .interpolation) :
    t.boundaries[c.spliced]? = some l.start ∧ c.span = .empty l.start := by
  obtain ⟨taken, hsplit, hcuts⟩ := h.lexemes
  constructor
  · have hfilter := t.filter_interpolation_lexemes
    rw [hsplit, hl, List.filter_append, List.filter_cons_of_pos (by simpa using hk)] at hfilter
    have hget : (t.boundaries.map fun cut => (⟨cut, .interpolation⟩ : Lexeme))[c.spliced]?
        = some l := by
      rw [← hfilter, ← hcuts, Lexeme.cuts, List.getElem?_append_right (Nat.le_refl _),
        Nat.sub_self]
      rfl
    rw [List.getElem?_map] at hget
    obtain ⟨position, hposition, hl'⟩ := Option.map_eq_some_iff.1 hget
    rw [hposition, ← hl']
  · rw [Cursor.span, hl, Lexeme.eq_of_kind_interpolation hk]
    rfl

/-- If no cut is without a node, there is a node for each cut that is left. -/
theorem exists_node (h : c.Paired t) (hall : t.boundaries.length ≤ t.substitutions.length) {n : Nat}
    (hk : c.kindAt n = .interpolation) :
    ∃ node rest, c.substitutions = node :: rest := by
  obtain ⟨l, hl, hkind⟩ := exists_mem_of_kindAt hk nofun
  have hcuts : 0 < Lexeme.cuts c.lexemes :=
    List.length_pos_of_mem (List.mem_filter.2 ⟨hl, beq_iff_eq.2 hkind⟩)
  have hleft := h.cuts_left
  refine List.exists_cons_of_ne_nil fun hnil => ?_
  rw [h.substitutions, List.drop_eq_nil_iff] at hnil
  omega

end Paired

end Cursor

/-- The failure is a fault, or cuts and nodes are paired where it stops. -/
def Failure.StopsPaired (t : Template) (c : Cursor) : Failure → Prop
  | error e => c.Paired t ∧ e.AtCut t
  | outOfFuel => c.Paired t
  | fault _ => True

namespace Parser

variable {α β : Type} {t : Template} {c c' : Cursor}

/-! ## Runs -/

namespace Ending

/-- The run ends in a fault, or with cuts and nodes paired. -/
def Paired (t : Template) : Ending α → Prop
  | .ok _ c => c.Paired t
  | .error e c => e.StopsPaired t c

def withMore (more : List Node) : Ending α → Ending α
  | .ok a c => .ok a (c.withMore more)
  | .error e c => .error e (c.withMore more)

end Ending

/-- From `c`, cuts and nodes stay paired, and further nodes change nothing if no cut is without a
node. -/
structure PairsFrom (t : Template) (p : Parser α) (c : Cursor) : Prop where
  ends : Ending.Paired t (p c)
  more : t.boundaries.length ≤ t.substitutions.length → ∀ more,
    p (c.withMore more) = Ending.withMore more (p c)

def Pairs (t : Template) (p : Parser α) : Prop := ∀ c, c.Paired t → PairsFrom t p c

section Rules

variable {p : Parser α} {f : α → Parser β}

theorem Ending.Paired.bind (hp : Ending.Paired t (p c))
    (hf : ∀ a c', p c = .ok a c' → c'.Paired t → Ending.Paired t (f a c')) :
    Ending.Paired t ((p >>= f) c) := by
  cases hpc : p c with
  | error e c₁ =>
    rw [bind_eq_of_error hpc]
    rwa [hpc] at hp
  | ok a c₁ =>
    rw [bind_eq_of_ok hpc]
    rw [hpc] at hp
    exact hf a c₁ hpc hp

theorem PairsFrom.bind (hp : PairsFrom t p c)
    (hf : ∀ a c', p c = .ok a c' → c'.Paired t → PairsFrom t (f a) c') :
    PairsFrom t (p >>= f) c := by
  obtain ⟨hends, hmore⟩ := hp
  refine ⟨hends.bind fun a c' hpc h' => (hf a c' hpc h').ends, fun hall more => ?_⟩
  cases hpc : p c with
  | error e c₁ =>
    rw [hpc] at hmore
    rw [bind_eq_of_error hpc, bind_eq_of_error (hmore hall more)]
    rfl
  | ok a c₁ =>
    rw [hpc] at hends hmore
    rw [bind_eq_of_ok hpc, bind_eq_of_ok (hmore hall more)]
    exact (hf a c₁ hpc hends).more hall more

theorem PairsFrom.get {f : Cursor → Parser α} (hf : PairsFrom t (f c) c)
    (hmore : t.boundaries.length ≤ t.substitutions.length → ∀ more, f (c.withMore more) = f c) :
    PairsFrom t (get >>= f) c := by
  refine ⟨hf.ends, fun hall more => ?_⟩
  rw [get_bind_apply, get_bind_apply, hmore hall more]
  exact hf.more hall more

theorem pairsFrom_pure (h : c.Paired t) (a : α) : PairsFrom t (pure a) c :=
  ⟨h, fun _ _ => rfl⟩

theorem pairsFrom_fault (x : Fault) (c : Cursor) : PairsFrom t (fault x : Parser α) c :=
  ⟨trivial, fun _ _ => rfl⟩

theorem pairsFrom_throw (h : c.Paired t) {e : ParseError} (he : e.AtCut t) :
    PairsFrom t (throw (.error e) : Parser α) c :=
  ⟨⟨h, he⟩, fun _ _ => rfl⟩

theorem pairsFrom_fail (h : c.Paired t) {cause : Cause} (hcause : cause.isOfNode = false) :
    PairsFrom t (fail cause : Parser α) c :=
  .get (pairsFrom_throw h (ParseError.atCut_of_not_isOfNode hcause)) fun _ _ => rfl

theorem pairsFrom_look (h : c.Paired t) (n : Nat) : PairsFrom t (look n) c := by
  obtain ⟨lexemes, nodes, spliced, delimiters, looks, allowance, fuel, source⟩ := c
  cases looks with
  | zero => exact ⟨trivial, fun _ _ => rfl⟩
  | succ looks =>
    exact ⟨⟨h.lexemes, h.substitutions, h.spliced_le, h.source⟩, fun _ _ => rfl⟩

theorem look_eq_ok {n : Nat} {k : Kind} (h : look n c = .ok k c') :
    k = c.kindAt n ∧ ∃ looks, c' = { c with looks } := by
  rw [look_apply] at h
  split at h
  · cases h
  · cases h
    exact ⟨rfl, _, rfl⟩

theorem isAt_eq_ok {k : Kind} {b : Bool} (h : isAt k c = .ok b c') :
    b = (c.kindAt 0 == k) ∧ ∃ looks, c' = { c with looks } := by
  obtain ⟨k', c₁, hlook, hpure⟩ := bind_eq_ok h
  obtain ⟨rfl, looks, rfl⟩ := look_eq_ok hlook
  cases hpure
  exact ⟨rfl, looks, rfl⟩

theorem expect_eq_ok {k : Kind} {u : Unit} (h : expect k c = .ok u c') :
    c.kindAt 0 = k ∧ ∃ looks, c' = { c with looks } := by
  obtain ⟨b, c₁, hat, hpure⟩ := bind_eq_ok h
  obtain ⟨rfl, looks, rfl⟩ := isAt_eq_ok hat
  split at hpure
  · rename_i hk
    cases hpure
    exact ⟨eq_of_beq hk, looks, rfl⟩
  · cases hpure

theorem pairsFrom_isAt (h : c.Paired t) (k : Kind) : PairsFrom t (isAt k) c :=
  (pairsFrom_look h 0).bind fun _ _ _ h' => pairsFrom_pure h' _

theorem pairsFrom_expect (h : c.Paired t) (k : Kind) : PairsFrom t (expect k) c := by
  refine (pairsFrom_isAt h k).bind fun b c' _ h' => ?_
  split
  · exact pairsFrom_pure h' _
  · exact pairsFrom_fault _ _

/-- Taking a lexeme goes on in the same way whatever nodes are left. -/
theorem consume_withMore (c : Cursor) (more : List Node) :
    consume (c.withMore more) = Ending.withMore more (consume c) := by
  obtain ⟨lexemes, nodes, spliced, delimiters, looks, allowance, fuel, source⟩ := c
  cases lexemes with
  | nil => rfl
  | cons l rest =>
    rw [consume_cons rfl, consume_cons rfl]
    cases looks with
    | zero => rfl
    | succ looks =>
      by_cases hk : l.kind = .garbage
      · simp only [hk, if_true]
        rfl
      · simp only [hk, if_false]
        rcases fuel with _ | _ | n <;> rfl

theorem consume_eq_ok {l : Lexeme} (h : consume c = .ok l c') :
    ∃ rest looks fuel, c.lexemes = l :: rest ∧ c' = { c with lexemes := rest, looks, fuel } := by
  cases hl : c.lexemes with
  | nil =>
    rw [consume_nil hl] at h
    cases h
  | cons l' rest =>
    rw [consume_cons hl] at h
    split at h
    · cases h
    split at h
    · cases h
    split at h
    · cases h
      exact ⟨rest, _, _, rfl, rfl⟩
    · cases h
    · cases h
      exact ⟨rest, _, _, rfl, rfl⟩

/-- A lexeme that is not taken leaves everything as it was. -/
theorem consume_stopsPaired (h : c.Paired t) {e : Failure} (he : consume c = .error e c') :
    e.StopsPaired t c' := by
  cases hl : c.lexemes with
  | nil =>
    rw [consume_nil hl] at he
    cases he
    trivial
  | cons l rest =>
    rw [consume_cons hl] at he
    split at he
    · cases he
      trivial
    split at he
    · cases he
      exact ⟨⟨h.lexemes, h.substitutions, h.spliced_le, h.source⟩, trivial⟩
    split at he
    · cases he
    · cases he
      exact ⟨h.lexemes, h.substitutions, h.spliced_le, h.source⟩
    · cases he

/-- Taking a lexeme keeps cuts and nodes paired, if it is no cut. -/
theorem paired_of_consume {l : Lexeme} (h : c.Paired t) (hl : consume c = .ok l c')
    (hk : l.kind ≠ .interpolation) : c'.Paired t := by
  obtain ⟨rest, looks, fuel, hlexemes, rfl⟩ := consume_eq_ok hl
  obtain ⟨taken, hsplit, hcuts⟩ := h.lexemes
  refine ⟨⟨taken ++ [l], ?_, ?_⟩, h.substitutions, h.spliced_le, h.source⟩
  · rw [hsplit, hlexemes, List.append_assoc]
    rfl
  · rw [Lexeme.cuts_append, Lexeme.cuts_singleton_of_ne hk, hcuts, Nat.add_zero]

/-- Behind a lexeme that is taken, cuts and nodes are paired if it is no cut. -/
theorem pairsFrom_consume_bind {f : Lexeme → Parser α} (h : c.Paired t)
    (hf : ∀ l c', consume c = .ok l c' → (l.kind ≠ .interpolation → c'.Paired t) →
      PairsFrom t (f l) c') : PairsFrom t (consume >>= f) c := by
  cases hc : consume c with
  | error e c₁ =>
    have hmore (more : List Node) : consume (c.withMore more) = .error e (c₁.withMore more) := by
      rw [consume_withMore, hc]
      rfl
    refine ⟨?_, fun _ more => ?_⟩
    · rw [bind_eq_of_error hc]
      exact consume_stopsPaired h hc
    · rw [bind_eq_of_error hc, bind_eq_of_error (hmore more)]
      rfl
  | ok l c₁ =>
    have hmore (more : List Node) : consume (c.withMore more) = .ok l (c₁.withMore more) := by
      rw [consume_withMore, hc]
      rfl
    have hrest := hf l c₁ hc fun hk => paired_of_consume h hc hk
    refine ⟨?_, fun hall more => ?_⟩
    · rw [bind_eq_of_ok hc]
      exact hrest.ends
    · rw [bind_eq_of_ok hc, bind_eq_of_ok (hmore more)]
      exact hrest.more hall more

end Rules

/-! ## Steps -/

theorem pairs_token (category : Category) : Pairs t (token category) := by
  refine fun c h => pairsFrom_consume_bind h fun l c' _ hl => ?_
  by_cases hk : l.kind = .interpolation
  · -- A cut has no text, and a token must have some.
    rw [Lexeme.eq_of_kind_interpolation hk]
    exact pairsFrom_fault _ c'
  · unfold newToken sound
    split
    · exact pairsFrom_pure (hl hk) _
    · exact pairsFrom_fault _ _

theorem kindAt_zero_of_consume {l : Lexeme} (h : consume c = .ok l c') : c.kindAt 0 = l.kind := by
  obtain ⟨rest, _, _, hlexemes, -⟩ := consume_eq_ok h
  rw [Cursor.kindAt, hlexemes]
  rfl

theorem pairs_digit : Pairs t digit := by
  refine fun c h => (pairsFrom_isAt h _).bind fun b c' hb h' => ?_
  obtain ⟨rfl, looks, rfl⟩ := isAt_eq_ok hb
  split
  · rename_i hdigit
    rw [map_eq_pure_bind]
    refine pairsFrom_consume_bind h' fun l c₁ hl h₁ => pairsFrom_pure (h₁ ?_) _
    have hk : l.kind = .digit := (kindAt_zero_of_consume hl).symm.trans (eq_of_beq hdigit)
    simp [hk]
  · exact pairsFrom_pure h' _

theorem pairs_escapeCode : Pairs t escapeCode := by
  refine fun c h => (pairsFrom_expect h _).bind fun _ c₁ hexpect h₁ => ?_
  obtain ⟨hbackslash, looks, rfl⟩ := expect_eq_ok hexpect
  refine .get (pairsFrom_consume_bind h₁ fun l c₂ hl h₂ => ?_) fun _ _ => rfl
  have hk : l.kind = .backslash := (kindAt_zero_of_consume hl).symm.trans hbackslash
  refine (pairsFrom_isAt (h₂ (by simp [hk])) _).bind fun b c₃ hb h₃ => ?_
  obtain ⟨rfl, _, rfl⟩ := isAt_eq_ok hb
  split
  · exact pairsFrom_fail h₃ rfl
  rename_i hcut
  refine (pairsFrom_isAt h₃ _).bind fun b c₄ hb h₄ => ?_
  obtain ⟨rfl, _, rfl⟩ := isAt_eq_ok hb
  split
  · exact pairsFrom_fail h₄ rfl
  refine .get ?_ fun _ _ => rfl
  split
  · exact .get (pairsFrom_throw h₄ (ParseError.atCut_of_not_isOfNode rfl)) fun _ _ => rfl
  · refine pairsFrom_consume_bind h₄ fun l' c₅ hl' h₅ => pairsFrom_pure (h₅ fun hk' => ?_) _
    exact hcut (beq_of_eq ((kindAt_zero_of_consume hl').trans hk'))

theorem pairs_rangeEndFollows : Pairs t rangeEndFollows := by
  refine fun c h => (pairsFrom_look h 1).bind fun k c' hk h' => ?_
  obtain ⟨rfl, looks, rfl⟩ := look_eq_ok hk
  split
  · exact pairsFrom_pure h' _
  · exact pairsFrom_pure h' _
  · exact pairsFrom_pure h' _
  · exact .get (pairsFrom_pure h' _) fun _ _ => rfl
  · rename_i hcut
    refine .get (pairsFrom_pure h' _) fun hall more => ?_
    -- The node that is looked at is the one of a cut that is left.
    obtain ⟨node, rest, hnodes⟩ := h.exists_node hall hcut
    change pure (nextIsCharacter (c.substitutions ++ more)) = pure (nextIsCharacter c.substitutions)
    rw [hnodes]
    rfl
  · exact pairsFrom_pure h' _

/-! ## Putting in a node -/

/-- Takes the lexeme at the cursor and the next node, if there is one. -/
def nextNode : Parser Node := do
  let c ← get
  match c.substitutions with
  | [] => fail (.noSubtree c.spliced)
  | node :: rest =>
    let _ ← consume
    modify fun c => { c with substitutions := rest, spliced := c.spliced + 1 }
    return node

theorem substitution_eq : substitution = (expect .interpolation >>= fun _ => nextNode) := rfl

theorem nextNode_of_nil (hs : c.substitutions = []) :
    nextNode c = .error (.error ⟨.noSubtree c.spliced, c.span, []⟩) c := by
  unfold nextNode
  rw [get_bind_apply, hs]
  rfl

theorem nextNode_of_error {node : Node} {rest : List Node} {e : Failure}
    (hs : c.substitutions = node :: rest) (hc : consume c = .error e c') :
    nextNode c = .error e c' := by
  unfold nextNode
  rw [get_bind_apply, hs]
  exact bind_eq_of_error hc

theorem nextNode_of_ok {node : Node} {rest : List Node} {l : Lexeme}
    (hs : c.substitutions = node :: rest) (hc : consume c = .ok l c') :
    nextNode c = .ok node { c' with substitutions := rest, spliced := c'.spliced + 1 } := by
  unfold nextNode
  rw [get_bind_apply, hs]
  exact bind_eq_of_ok hc

theorem nextNode_eq_ok {node : Node} (h : nextNode c = .ok node c') :
    ∃ rest, c.substitutions = node :: rest := by
  cases hs : c.substitutions with
  | nil =>
    rw [nextNode_of_nil hs] at h
    cases h
  | cons node' rest =>
    cases hc : consume c with
    | error e c₁ =>
      rw [nextNode_of_error hs hc] at h
      cases h
    | ok l c₁ =>
      rw [nextNode_of_ok hs hc] at h
      cases h
      exact ⟨rest, rfl⟩

theorem exists_lexeme_of_kindAt {k : Kind} (hk : c.kindAt 0 = k) (hne : k ≠ .eof) :
    ∃ l rest, c.lexemes = l :: rest ∧ l.kind = k := by
  cases hl : c.lexemes with
  | nil =>
    rw [Cursor.kindAt, hl] at hk
    exact absurd hk.symm hne
  | cons l rest =>
    rw [Cursor.kindAt, hl] at hk
    exact ⟨l, rest, rfl, hk⟩

/-- Putting in a node keeps cuts and nodes paired. -/
theorem paired_of_node {l : Lexeme} {node : Node} {rest : List Node} (h : c.Paired t)
    (hs : c.substitutions = node :: rest) (hk : c.kindAt 0 = .interpolation)
    (hc : consume c = .ok l c') :
    Cursor.Paired t { c' with substitutions := rest, spliced := c'.spliced + 1 } := by
  have hcut : l.kind = .interpolation := (kindAt_zero_of_consume hc).symm.trans hk
  obtain ⟨ls, looks, fuel, hlexemes, rfl⟩ := consume_eq_ok hc
  obtain ⟨taken, hsplit, hcuts⟩ := h.lexemes
  have hdrop : t.substitutions.drop c.spliced = node :: rest := h.substitutions.symm.trans hs
  refine ⟨⟨taken ++ [l], ?_, ?_⟩, ?_, ?_, h.source⟩
  · rw [hsplit, hlexemes, List.append_assoc]
    rfl
  · rw [Lexeme.cuts_append, Lexeme.cuts_singleton_cut hcut, hcuts]
  · change rest = t.substitutions.drop (c.spliced + 1)
    rw [← List.drop_drop, hdrop]
    rfl
  · have hlength := congrArg List.length hdrop
    rw [List.length_drop, List.length_cons] at hlength
    change c.spliced + 1 ≤ _
    omega

theorem pairsFrom_nextNode (h : c.Paired t) (hk : c.kindAt 0 = .interpolation) :
    PairsFrom t nextNode c := by
  cases hs : c.substitutions with
  | nil =>
    have hat : ParseError.AtCut t ⟨.noSubtree c.spliced, c.span, []⟩ := by
      have hnone := h.substitutions.symm.trans hs
      rw [List.drop_eq_nil_iff] at hnone
      obtain ⟨l, rest, hl, hcut⟩ := exists_lexeme_of_kindAt hk nofun
      obtain ⟨hboundary, hspan⟩ := h.exists_boundary hl hcut
      exact ⟨Nat.le_antisymm h.spliced_le hnone, l.start, hboundary, by rw [hspan]⟩
    refine ⟨?_, fun hall => ?_⟩
    · rw [nextNode_of_nil hs]
      exact ⟨h, hat⟩
    · obtain ⟨node, rest, hnodes⟩ := h.exists_node hall hk
      rw [hs] at hnodes
      cases hnodes
  | cons node rest =>
    have hmore (more : List Node) : (c.withMore more).substitutions = node :: (rest ++ more) := by
      rw [Cursor.withMore, hs, List.cons_append]
    cases hc : consume c with
    | error e c₁ =>
      refine ⟨?_, fun _ more => ?_⟩
      · rw [nextNode_of_error hs hc]
        exact consume_stopsPaired h hc
      · rw [nextNode_of_error hs hc,
          nextNode_of_error (hmore more) (by rw [consume_withMore, hc]; rfl)]
        rfl
    | ok l c₁ =>
      refine ⟨?_, fun _ more => ?_⟩
      · rw [nextNode_of_ok hs hc]
        exact paired_of_node h hs hk hc
      · rw [nextNode_of_ok hs hc,
          nextNode_of_ok (hmore more) (by rw [consume_withMore, hc]; rfl)]
        rfl

theorem pairs_substitution : Pairs t substitution := by
  refine fun c h => (pairsFrom_expect h _).bind fun _ c' hexpect h' => ?_
  obtain ⟨hcut, looks, rfl⟩ := expect_eq_ok hexpect
  exact pairsFrom_nextNode h' hcut

/-- The node that is put in is the one with the number of the cut. -/
theorem substitution_eq_ok {node : Node} (h : c.Paired t) (hn : substitution c = .ok node c') :
    ∃ position, t.boundaries[c.spliced]? = some position ∧ c.span = .empty position
      ∧ t.substitutions[c.spliced]? = some node := by
  rw [substitution_eq] at hn
  obtain ⟨_, c₁, hexpect, hnext⟩ := bind_eq_ok hn
  obtain ⟨hcut, looks, rfl⟩ := expect_eq_ok hexpect
  obtain ⟨l, _, hl, hk⟩ := exists_lexeme_of_kindAt hcut nofun
  obtain ⟨hboundary, hspan⟩ := h.exists_boundary hl hk
  obtain ⟨rest, hs⟩ := nextNode_eq_ok hnext
  exact ⟨l.start, hboundary, hspan, h.head?_substitutions.symm.trans (congrArg List.head? hs)⟩

theorem pairs_splice (family? : Node → Option α) (cause : NodeType → Cause)
    (hcause : ∀ type, cause type = .notAnElement type ∨ cause type = .notAClassElement type
      ∨ cause type = .notFlags type) : Pairs t (splice family? cause) := by
  refine fun c h => .get ((pairs_substitution c h).bind fun node c' hn h' => ?_) fun _ _ => rfl
  split
  · exact pairsFrom_pure h' _
  · obtain ⟨position, hboundary, hspan, hnode⟩ := substitution_eq_ok h hn
    have hat : ∃ (i position : Nat) (n : Node), t.boundaries[i]? = some position
        ∧ t.substitutions[i]? = some n ∧ n.type = node.type ∧ c.span = .empty position :=
      ⟨_, position, node, hboundary, hnode, rfl, hspan⟩
    refine pairsFrom_throw h' ?_
    rcases hcause node.type with hc | hc | hc <;>
    · rw [hc]
      exact hat

/-- Wherever a run gets to without a fault, cuts and nodes are paired, and if no cut is without a
node, further nodes change nothing. -/
theorem stepwise_pairs (t : Template) : Stepwise (Pairs t) where
  pure a := fun _ h => pairsFrom_pure h a
  bind hp hf := fun c h => (hp c h).bind fun a c' _ h' => hf a c' h'
  get hf hsame := fun c h => .get (hf c c h) fun _ _ => hsame c _ c.looks c.allowance c.fuel
  fault x := fun c _ => pairsFrom_fault x c
  throw _ he := fun _ h => pairsFrom_throw h (ParseError.atCut_of_not_isOfNode he)
  look n := fun _ h => pairsFrom_look h n
  openDelimiter _ := fun _ h =>
    ⟨⟨h.lexemes, h.substitutions, h.spliced_le, h.source⟩, fun _ _ => rfl⟩
  closeDelimiter := fun _ h =>
    ⟨⟨h.lexemes, h.substitutions, h.spliced_le, h.source⟩, fun _ _ => rfl⟩
  token := pairs_token
  digit := pairs_digit
  escapeCode := pairs_escapeCode
  splice := pairs_splice
  rangeEndFollows := pairs_rangeEndFollows

end Parser

end RegexLiteral
