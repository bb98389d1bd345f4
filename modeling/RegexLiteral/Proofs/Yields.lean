import RegexLiteral.Proofs.Item
import RegexLiteral.Proofs.Kind

/-!
# What a run of a parser yields

`p.Yields c post fails` says of the run of `p` from `c` that a result has `post` and that a failure
has `fails`, so every lemma on a parser speaks of both. A sequence is followed step by step
(`Yields.bind`), and a repetition by what one step keeps (`collect_yields`).

A failure is proper if it is not a fault. The steps that all parsers are made of are followed here;
they need looks to be left, and fail properly.
-/

namespace RegexLiteral

/-- The source is wrong, or the fuel has run out. -/
def Failure.IsProper : Failure → Prop
  | error _ | outOfFuel => True
  | fault _ => False

namespace Parser

variable {α β : Type}

def Yields (p : Parser α) (c : Cursor) (post : α → Cursor → Prop) (fails : Failure → Prop) :
    Prop :=
  match p c with
  | .ok a c' => post a c'
  | .error e _ => fails e

variable {c : Cursor} {fails : Failure → Prop}

section Rules

variable {p : Parser α} {f : α → Parser β} {mid post : α → Cursor → Prop}
  {post' : β → Cursor → Prop}

theorem Yields.bind (h : Yields p c mid fails)
    (hf : ∀ a c', mid a c' → Yields (f a) c' post' fails) : Yields (p >>= f) c post' fails := by
  simp only [Yields, Bind.bind, EStateM.bind] at h ⊢
  cases hp : p c with
  | ok a c' =>
    rw [hp] at h
    exact hf a c' h
  | error e c' =>
    rw [hp] at h
    exact h

theorem Yields.mono (h : Yields p c mid fails) (hm : ∀ a c', mid a c' → post a c') :
    Yields p c post fails := by
  unfold Yields at h ⊢
  cases hp : p c with
  | ok a c' =>
    rw [hp] at h
    exact hm a c' h
  | error e c' =>
    rw [hp] at h
    exact h

theorem Yields.map {g : α → β} (h : Yields p c (fun a c' => post' (g a) c') fails) :
    Yields (g <$> p) c post' fails := by
  rw [map_eq_pure_bind]
  exact h.bind fun _ _ ha => ha

theorem yields_pure {a : α} (h : post a c) : Yields (pure a) c post fails := h

theorem get_bind {f : Cursor → Parser β} (h : Yields (f c) c post' fails) :
    Yields (get >>= f) c post' fails := h

theorem set_bind {f : Unit → Parser β} {c' : Cursor} (h : Yields (f ()) c' post' fails) :
    Yields (set c' >>= f) c post' fails := h

theorem modify_bind {g : Cursor → Cursor} {f : Unit → Parser β}
    (h : Yields (f ()) (g c) post' fails) : Yields (modify g >>= f) c post' fails := h

theorem yields_fail {cause : Cause} (h : fails (.error ⟨cause, c.span, []⟩)) :
    Yields (fail cause) c post fails := h

theorem yields_failAt {span : Span} {cause : Cause} (h : fails (.error ⟨cause, span, []⟩)) :
    Yields (failAt span cause) c post fails := h

theorem yields_failBecause {cause : Cause} {related : List Related}
    (h : fails (.error ⟨cause, c.span, related⟩)) :
    Yields (failBecause cause related) c post fails := h

end Rules

end Parser

/-- After a look at a lexeme. -/
def Cursor.looked (c : Cursor) : Cursor := { c with looks := c.looks - 1 }

namespace Cursor

variable {c c' : Cursor} {used : List Item}

@[simp] theorem looks_looked : c.looked.looks = c.looks - 1 := rfl

@[simp] theorem items_looked : c.looked.items = c.items := rfl

@[simp] theorem lexemes_looked : c.looked.lexemes = c.lexemes := rfl

@[simp] theorem substitutions_looked : c.looked.substitutions = c.substitutions := rfl

@[simp] theorem kindAt_looked (n : Nat) : c.looked.kindAt n = c.kindAt n := rfl

@[simp] theorem reaches_looked : c.Reaches used c'.looked ↔ c.Reaches used c' :=
  ⟨fun h => { h with }, fun h => { h with }⟩

@[simp] theorem looked_reaches : c.looked.Reaches used c' ↔ c.Reaches used c' :=
  ⟨fun h => { h with }, fun h => { h with }⟩

variable {i : Item} {k : Kind} {rest : List Item}

theorem items_eq_nil_iff : c.items = [] ↔ c.lexemes = [] := by
  have h : c.items.length = c.lexemes.length := by
    rw [← List.length_map Item.kind, items, map_kind_itemsOf, List.length_map]
  rw [← List.length_eq_zero_iff, h, List.length_eq_zero_iff]

theorem kindAt_zero (h : c.items = i :: rest) : c.kindAt 0 = i.kind := by
  rw [kindAt_eq, h]
  rfl

theorem kindAt_nil (h : c.items = []) : c.kindAt 0 = .eof := by
  rw [kindAt_eq, h]
  rfl

end Cursor

namespace Parser

variable {α β : Type} {c : Cursor} {post : β → Cursor → Prop} {fails : Failure → Prop}

/-! ## Looking -/

theorem look_bind {n : Nat} {f : Kind → Parser β} (hl : 0 < c.looks)
    (h : Yields (f (c.kindAt n)) c.looked post fails) : Yields (look n >>= f) c post fails := by
  obtain ⟨k, hk⟩ : ∃ k, c.looks = k + 1 := ⟨c.looks - 1, by omega⟩
  have hc : c.looked = { c with looks := k } := by rw [Cursor.looked, hk]; rfl
  have : Yields (look n) c (fun k' c' => k' = c.kindAt n ∧ c' = c.looked) fails := by
    refine get_bind ?_
    rw [hk, hc]
    exact set_bind (yields_pure ⟨rfl, rfl⟩)
  refine this.bind fun k' c' hkc => ?_
  rw [hkc.1, hkc.2]
  exact h

theorem isAt_bind {k : Kind} {f : Bool → Parser β} (hl : 0 < c.looks)
    (h : Yields (f (c.kindAt 0 == k)) c.looked post fails) :
    Yields (isAt k >>= f) c post fails := by
  rw [isAt, bind_assoc]
  exact look_bind hl h

theorem isAtAny_bind {ks : KindSet} {f : Bool → Parser β} (hl : 0 < c.looks)
    (h : Yields (f (ks.contains (c.kindAt 0))) c.looked post fails) :
    Yields (isAtAny ks >>= f) c post fails := by
  rw [isAtAny, bind_assoc]
  exact look_bind hl h

theorem expect_bind {k : Kind} {f : Unit → Parser β} (hl : 0 < c.looks) (hk : c.kindAt 0 = k)
    (h : Yields (f ()) c.looked post fails) : Yields (expect k >>= f) c post fails := by
  rw [expect, bind_assoc]
  refine isAt_bind hl ?_
  rw [hk, beq_self_eq_true, if_pos rfl]
  exact h

end Parser

end RegexLiteral
