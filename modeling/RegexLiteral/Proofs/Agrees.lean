import RegexLiteral.Proofs.Alike
import RegexLiteral.Proofs.Metered

/-!
# Two runs side by side

Two parsers agree if their runs, from cursors that differ in the nodes to be put in but not in the
types of these nodes, end alike: with the same failure, or with results that are alike and cursors
that again differ in nodes of the same types only (`Agrees`). A parser that agrees with itself up to
equal results is blind to the nodes (`Blind`). Agreement is kept by sequences and repetitions.
-/

namespace RegexLiteral

open Likeness

namespace Cursor

def withNodes (c : Cursor) (nodes : List Node) : Cursor := { c with substitutions := nodes }

@[simp] theorem substitutions_withNodes (c : Cursor) (nodes : List Node) :
    (c.withNodes nodes).substitutions = nodes := rfl

@[simp] theorem delimiters_withNodes (c : Cursor) (nodes : List Node) :
    (c.withNodes nodes).delimiters = c.delimiters := rfl

@[simp] theorem looks_withNodes (c : Cursor) (nodes : List Node) :
    (c.withNodes nodes).looks = c.looks := rfl

end Cursor

def SameTypes (ns ms : List Node) : Prop := ns.map Node.type = ms.map Node.type

theorem SameTypes.eq_nil {ms : List Node} (h : SameTypes [] ms) : ms = [] :=
  List.map_eq_nil_iff.1 h.symm

theorem SameTypes.exists_cons {n : Node} {ns ms : List Node} (h : SameTypes (n :: ns) ms) :
    ∃ m ms', ms = m :: ms' ∧ n.type = m.type ∧ SameTypes ns ms' := by
  obtain ⟨m, ms', rfl, hm, hms⟩ := List.map_eq_cons_iff.1 h.symm
  exact ⟨m, ms', rfl, hm.symm, hms.symm⟩

namespace Parser

variable {α β : Type}

/-- Two runs, from cursors with the nodes `ns` and `ms`, fail alike or have results that are alike,
each with the nodes that the run has put in. -/
inductive Ending.Agrees (R : Likeness α) (ns ms : List Node) : Ending α → Ending α → Prop
  | error (e : Failure) (c d : Cursor) : Agrees R ns ms (.error e c) (.error e d)
  | ok {used used' rest : List Node} {a b : α} {c : Cursor} (hns : ns = used ++ c.substitutions)
    (hms : ms = used' ++ rest) (ht : SameTypes c.substitutions rest) (h : R used used' a b) :
    Agrees R ns ms (.ok a c) (.ok b (c.withNodes rest))

theorem Ending.Agrees.unused {R : Likeness α} {c : Cursor} {ms : List Node} {a b : α}
    (hc : SameTypes c.substitutions ms) (h : R [] [] a b) :
    Agrees R c.substitutions ms (.ok a c) (.ok b (c.withNodes ms)) := .ok rfl rfl hc h

def Agrees (p q : Parser α) (R : Likeness α) : Prop := ∀ (c : Cursor) (ms : List Node),
  SameTypes c.substitutions ms → Ending.Agrees R c.substitutions ms (p c) (q (c.withNodes ms))

/-- The parser goes on in the same way whatever the nodes are, and puts none of them in. -/
def Blind (p : Parser α) : Prop := Agrees p p Same

variable {p q : Parser α} {f g : α → Parser β} {R S : Likeness α} {T : Likeness β}

/-! ## Rules -/

theorem Agrees.bind (hp : Agrees p q R)
    (hf : ∀ ns ms a b, R ns ms a b → Agrees (f a) (g b) (T.after ns ms)) :
    Agrees (p >>= f) (q >>= g) T := by
  intro c ms hc
  have hfirst := hp c ms hc
  generalize hpc : p c = r, hqc : q (c.withNodes ms) = r' at hfirst
  cases hfirst with
  | error e c' d' =>
    rw [bind_eq_of_error hpc, bind_eq_of_error hqc]
    exact .error e c' d'
  | @ok used used' rest a b c' hns hms ht hab =>
    rw [bind_eq_of_ok hpc, bind_eq_of_ok hqc, hns, hms]
    have hsecond := hf used used' a b hab c' rest ht
    generalize f a c' = r, g b (c'.withNodes rest) = r' at hsecond
    cases hsecond with
    | error e c'' d'' => exact .error e c'' d''
    | ok hns' hms' ht' hr =>
      refine .ok ?_ ?_ ht' hr
      · rw [hns', List.append_assoc]
      · rw [hms', List.append_assoc]

theorem Agrees.mono (h : Agrees p q R) (hR : ∀ ns ms a b, R ns ms a b → S ns ms a b) :
    Agrees p q S := by
  intro c ms hc
  have hrun := h c ms hc
  generalize p c = r, q (c.withNodes ms) = r' at hrun
  cases hrun with
  | error e c' d' => exact .error e c' d'
  | ok hns hms ht hab => exact .ok hns hms ht (hR _ _ _ _ hab)

theorem agrees_pure {a b : α} (h : R [] [] a b) : Agrees (pure a) (pure b) R :=
  fun _ _ hc => .unused hc h

theorem Agrees.bind_pure {h k : α → β} (hp : Agrees p q fun ns ms a b => T ns ms (h a) (k b)) :
    Agrees (p >>= fun a => pure (h a)) (q >>= fun b => pure (k b)) T := by
  refine hp.bind fun ns ms a b hab => agrees_pure ?_
  unfold after
  rwa [List.append_nil, List.append_nil]

theorem Agrees.map {h k : α → β} (hp : Agrees p q fun ns ms a b => T ns ms (h a) (k b)) :
    Agrees (h <$> p) (k <$> q) T := by
  rw [map_eq_pure_bind, map_eq_pure_bind]
  exact hp.bind_pure

/-- What follows a blind parser follows it from equal results. -/
theorem Blind.agrees (hp : Blind p) (hf : ∀ a, Agrees (f a) (g a) T) :
    Agrees (p >>= f) (p >>= g) T := by
  refine Agrees.bind hp fun ns ms a b hab => ?_
  cases hab
  exact hf a

theorem Blind.bind (hp : Blind p) (hf : ∀ a, Blind (f a)) : Blind (p >>= f) := hp.agrees hf

theorem blind_pure (a : α) : Blind (pure a) := agrees_pure (.refl a)

theorem Blind.map (hp : Blind p) (h : α → β) : Blind (h <$> p) := by
  rw [map_eq_pure_bind]
  exact hp.bind fun _ => blind_pure _

theorem agrees_throw (e : Failure) : Agrees (throw e : Parser α) (throw e) R :=
  fun c ms _ => .error e c (c.withNodes ms)

/-- What is done with the cursor may depend on everything but its nodes. -/
theorem agrees_get {f g : Cursor → Parser α}
    (h : ∀ c ms, SameTypes c.substitutions ms → Agrees (f c) (g (c.withNodes ms)) R) :
    Agrees (get >>= f) (get >>= g) R := fun c ms hc => h c ms hc c ms hc

theorem blind_get {f : Cursor → Parser α} (hf : ∀ c, Blind (f c))
    (hnodes : ∀ c nodes, f (c.withNodes nodes) = f c) : Blind (get >>= f) :=
  agrees_get fun c ms _ => by
    rw [hnodes]
    exact hf c

theorem blind_modify {h : Cursor → Cursor} (hkeep : ∀ c, (h c).substitutions = c.substitutions)
    (hnodes : ∀ c nodes, h (c.withNodes nodes) = (h c).withNodes nodes) :
    Blind (modify h : Parser PUnit) := by
  intro c ms hc
  change Ending.Agrees Same c.substitutions ms (.ok PUnit.unit (h c))
    (.ok PUnit.unit (h (c.withNodes ms)))
  rw [← hkeep] at hc
  rw [← hkeep, hnodes]
  exact .unused hc (.refl _)

/-! ## Failing -/

theorem agrees_fault (fault' : Fault) : Agrees (fault fault' : Parser α) (fault fault') R :=
  agrees_throw _

theorem agrees_failAt (span : Span) (cause : Cause) :
    Agrees (failAt span cause : Parser α) (failAt span cause) R := agrees_throw _

theorem agrees_fail (cause : Cause) : Agrees (fail cause : Parser α) (fail cause) R :=
  agrees_get fun _ _ _ => agrees_failAt _ _

theorem agrees_failBecause (cause : Cause) (related : List Related) :
    Agrees (failBecause cause related : Parser α) (failBecause cause related) R :=
  agrees_get fun _ _ _ => agrees_throw _

theorem agrees_failUnclosed (cause : Cause) (remark : Remark) :
    Agrees (failUnclosed cause remark : Parser α) (failUnclosed cause remark) R := by
  refine agrees_get fun c ms _ => ?_
  simp only [Cursor.delimiters_withNodes]
  cases c.delimiters with
  | nil => exact agrees_failBecause _ _
  | cons d ds =>
    by_cases hd : (d.kind == .slash || d.kind == .bracketOpen) = true
    · simp only [hd, if_true]
      exact agrees_failBecause _ _
    · simp only [hd]
      exact agrees_fault _

theorem blind_range (start stop : Nat) : Blind (range start stop) := by
  unfold range
  split
  · exact blind_pure _
  · exact agrees_fault _

theorem blind_slice (span : Span) : Blind (slice span) := by
  refine blind_get (fun c => ?_) fun _ _ => rfl
  split
  · exact agrees_fault _
  · exact blind_pure _

/-! ## Steps -/

theorem blind_look (n : Nat) : Blind (look n) := by
  intro c ms hc
  rw [look_apply, look_apply, Cursor.looks_withNodes]
  cases c.looks with
  | zero => exact .error _ _ _
  | succ looks => exact Ending.Agrees.unused (c := { c with looks }) hc (.refl _)

theorem blind_isAt (k : Kind) : Blind (isAt k) := (blind_look 0).bind fun _ => blind_pure _

theorem blind_isAtAny (ks : KindSet) : Blind (isAtAny ks) :=
  (blind_look 0).bind fun _ => blind_pure _

theorem blind_expect (k : Kind) : Blind (expect k) := by
  refine (blind_isAt k).bind fun b => ?_
  split
  · exact blind_pure _
  · exact agrees_fault _

theorem blind_consume : Blind consume := by
  intro c ms hc
  obtain ⟨lexemes, nodes, spliced, delimiters, looks, allowance, fuel, source⟩ := c
  have hrest (l : Lexeme) (d : Cursor) (h : d.substitutions = nodes) :
      Ending.Agrees Same nodes ms (.ok l d) (.ok l (d.withNodes ms)) := by
    subst h
    exact .unused hc (.refl l)
  cases lexemes with
  | nil =>
    rw [consume_nil rfl, consume_nil rfl]
    exact .error _ _ _
  | cons l rest =>
    rw [consume_cons rfl, consume_cons rfl]
    cases looks with
    | zero => exact .error _ _ _
    | succ looks =>
      by_cases hg : l.kind = .garbage
      · simp only [hg, if_true]
        exact .error _ _ _
      · simp only [hg, if_false]
        rcases fuel with _ | _ | n
        · exact hrest l ⟨rest, nodes, spliced, delimiters, _, allowance, none, source⟩ rfl
        · exact .error _ _ _
        · exact hrest l ⟨rest, nodes, spliced, delimiters, _, allowance, some n, source⟩ rfl

theorem blind_sound (r : Except InvalidNode α) : Blind (sound r) := by
  cases r with
  | ok a => exact blind_pure a
  | error cause => exact agrees_fault _

theorem blind_newToken (category : Category) (text : String) : Blind (newToken category text) :=
  blind_sound _

theorem blind_token (category : Category) : Blind (token category) :=
  blind_consume.bind fun _ => blind_newToken _ _

theorem blind_openDelimiter (k : Kind) : Blind (openDelimiter k) :=
  blind_modify (fun _ => rfl) fun _ _ => rfl

theorem blind_closeDelimiter : Blind closeDelimiter := blind_modify (fun _ => rfl) fun _ _ => rfl

/-- The nodes that the two runs take are of the same type. -/
inductive Taken : Likeness Node
  | mk {n m : Node} (h : n.type = m.type) : Taken [n] [m] n m

theorem agrees_substitution : Agrees substitution substitution Taken := by
  refine (blind_expect _).agrees fun _ c ms hc => ?_
  rw [get_bind_apply, get_bind_apply, Cursor.substitutions_withNodes]
  cases hnodes : c.substitutions with
  | nil =>
    rw [hnodes] at hc
    rw [hc.eq_nil]
    exact .error _ _ _
  | cons n ns =>
    rw [hnodes] at hc
    have hrun := blind_consume c ms (by rw [hnodes]; exact hc)
    obtain ⟨m, ms, rfl, ht, hts⟩ := hc.exists_cons
    generalize hpc : consume c = r, hqc : consume (c.withNodes (m :: ms)) = r' at hrun
    change Ending.Agrees _ _ _ ((consume >>= _) c) ((consume >>= _) (c.withNodes (m :: ms)))
    cases hrun with
    | error e c' d' =>
      rw [bind_eq_of_error hpc, bind_eq_of_error hqc]
      exact .error e c' d'
    | @ok _ _ _ _ _ c' =>
      rw [bind_eq_of_ok hpc, bind_eq_of_ok hqc]
      -- What is left of the nodes is not the same in both runs, so no rule for `modify` applies.
      let d : Cursor := { c' with substitutions := ns, spliced := c'.spliced + 1 }
      have hd : Ending.Agrees Taken ([n] ++ d.substitutions) ([m] ++ ms) (.ok n d)
          (.ok m (d.withNodes ms)) := .ok rfl rfl hts (.mk ht)
      exact hd

/-! ## Repeating -/

theorem Agrees.collect {step step' : Parser (Option α)} (h : Agrees step step' (Maybe R)) :
    Agrees (collect step) (collect step') (Row R) := by
  have hwithin (n : Nat) : Agrees (collectWithin step n) (collectWithin step' n) (Row R) := by
    induction n with
    | zero => exact agrees_fault _
    | succ n ih =>
      refine h.bind fun ns ms r r' hr => ?_
      cases hr with
      | none => exact agrees_pure .nil
      | some hab =>
        refine ih.bind fun ns' ms' as bs hs => agrees_pure ?_
        have hrow : Row R _ _ _ _ := .cons hab hs
        simpa [after] using hrow
  exact agrees_get fun _ _ _ => hwithin _

theorem Blind.collect {step : Parser (Option α)} (h : Blind step) : Blind (collect step) := by
  have hstep : Agrees step step (Maybe Same) := h.mono fun _ _ r _ hr => by
    cases hr
    cases r with
    | none => exact .none
    | some a => exact .some (.refl a)
  refine hstep.collect.mono fun _ _ _ _ hrow => ?_
  induction hrow with
  | nil => exact .refl []
  | cons h _ ih =>
    cases h
    cases ih
    exact .refl _

end Parser

end RegexLiteral
