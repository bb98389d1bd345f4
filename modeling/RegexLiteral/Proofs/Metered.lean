import RegexLiteral.Parse.Literal

/-!
# Runs with and without a limit

A parser is metered if a limit on the fuel changes nothing but how far its runs get (`Takes`): with
as much fuel as the run without a limit takes, everything goes as without a limit, and with less the
fuel runs out. That holds of every step, since the only step that looks at the fuel is the one that
takes a lexeme (`metered_consume`), and it is kept by sequences.
-/

namespace RegexLiteral

namespace Cursor

variable (c : Cursor) (fuel : Option Nat)

def withFuel : Cursor := { c with fuel }

@[simp] theorem fuel_withFuel : (c.withFuel fuel).fuel = fuel := rfl

@[simp] theorem lexemes_withFuel : (c.withFuel fuel).lexemes = c.lexemes := rfl

@[simp] theorem withFuel_withFuel (fuel' : Option Nat) :
    (c.withFuel fuel).withFuel fuel' = c.withFuel fuel' := rfl

end Cursor

namespace Parser

variable {α β : Type}

abbrev Ending (α : Type) := EStateM.Result Failure Cursor α

namespace Ending

/-- The cursor where a run ends, whether it fails or not. -/
def cursor : Ending α → Cursor
  | .ok _ c => c
  | .error _ c => c

def outcome : Ending α → Except Failure α
  | .ok a _ => .ok a
  | .error e _ => .error e

def withFuel (fuel : Option Nat) : Ending α → Ending α
  | .ok a c => .ok a (c.withFuel fuel)
  | .error e c => .error e (c.withFuel fuel)

end Ending

/-- Without a limit `p` takes `used` lexemes from `c` on. A limit below that is what the run ends
with, and a larger one is only lowered by it. -/
structure Takes (p : Parser α) (c : Cursor) (used : Nat) : Prop where
  length : c.lexemes.length = used + (Ending.cursor (p (c.withFuel none))).lexemes.length
  free : Ending.withFuel none (p (c.withFuel none)) = p (c.withFuel none)
  unlimited : ∀ c', p (c.withFuel none) ≠ .error .outOfFuel c'
  short : ∀ n < used, ∃ c', p (c.withFuel (some n)) = .error .outOfFuel c'
  enough : ∀ n, p (c.withFuel (some (used + n))) = Ending.withFuel (some n) (p (c.withFuel none))

/-- The fuel that a run takes is that of the lexemes that it takes. -/
def Metered (p : Parser α) : Prop := ∀ c, ∃ used, Takes p c used

/-! ## Steps -/

section Bind

variable {p : Parser α} {f : α → Parser β} {c c₁ : Cursor} {used used' : Nat}

theorem bind_eq_of_error {e : Failure} (h : p c = .error e c₁) : (p >>= f) c = .error e c₁ := by
  simp only [Bind.bind, EStateM.bind, h]

theorem bind_eq_of_ok {a : α} (h : p c = .ok a c₁) : (p >>= f) c = f a c₁ := by
  simp only [Bind.bind, EStateM.bind, h]

theorem bind_eq_ok {b : β} {c' : Cursor} (h : (p >>= f) c = .ok b c') :
    ∃ a c₁, p c = .ok a c₁ ∧ f a c₁ = .ok b c' := by
  cases hp : p c with
  | error e c₁ =>
    rw [bind_eq_of_error hp] at h
    cases h
  | ok a c₁ => exact ⟨a, c₁, rfl, (bind_eq_of_ok hp).symm.trans h⟩

theorem get_bind_apply (f : Cursor → Parser β) (c : Cursor) : (get >>= f) c = f c c := rfl

theorem Takes.bind_error {e : Failure} (h : Takes p c used)
    (he : p (c.withFuel none) = .error e c₁) : Takes (p >>= f) c used := by
  obtain ⟨hlength, hfree, hunlimited, hshort, henough⟩ := h
  rw [he] at hlength hfree hunlimited henough
  refine ⟨?_, ?_, ?_, fun n hn => ?_, fun n => ?_⟩
  · rw [bind_eq_of_error he]
    exact hlength
  · rw [bind_eq_of_error he]
    simpa [Ending.withFuel] using hfree
  · rw [bind_eq_of_error he]
    simpa using hunlimited
  · obtain ⟨c', hc'⟩ := hshort n hn
    exact ⟨c', bind_eq_of_error hc'⟩
  · rw [bind_eq_of_error he]
    exact bind_eq_of_error (henough n)

theorem Takes.bind_ok {a : α} (h : Takes p c used) (ha : p (c.withFuel none) = .ok a c₁)
    (h' : Takes (f a) c₁ used') : Takes (p >>= f) c (used + used') := by
  obtain ⟨hlength, hfree, -, hshort, henough⟩ := h
  rw [ha] at hlength hfree henough
  have hc₁ : c₁.withFuel none = c₁ := by simpa [Ending.withFuel] using hfree
  obtain ⟨hlength', hfree', hunlimited', hshort', henough'⟩ := h'
  rw [hc₁] at hlength' hfree' hunlimited' henough'
  have hlimit (n : Nat) : (p >>= f) (c.withFuel (some (used + n))) = f a (c₁.withFuel (some n)) :=
    bind_eq_of_ok (henough n)
  refine ⟨?_, ?_, ?_, fun n hn => ?_, fun n => ?_⟩
  · have hl : c.lexemes.length = used + c₁.lexemes.length := hlength
    rw [bind_eq_of_ok ha, hl, hlength', Nat.add_assoc]
  · rw [bind_eq_of_ok ha]
    exact hfree'
  · rw [bind_eq_of_ok ha]
    exact hunlimited'
  · by_cases hlt : n < used
    · obtain ⟨c', hc'⟩ := hshort n hlt
      exact ⟨c', bind_eq_of_error hc'⟩
    · obtain ⟨m, rfl⟩ := Nat.exists_eq_add_of_le (Nat.le_of_not_lt hlt)
      rw [hlimit]
      exact hshort' m (by omega)
  · rw [bind_eq_of_ok ha, Nat.add_assoc, hlimit]
    exact henough' n

end Bind

theorem Metered.bind {p : Parser α} {f : α → Parser β} (hp : Metered p)
    (hf : ∀ a, Metered (f a)) : Metered (p >>= f) := by
  intro c
  obtain ⟨used, h⟩ := hp c
  cases hc : p (c.withFuel none) with
  | error e c₁ => exact ⟨used, h.bind_error hc⟩
  | ok a c₁ =>
    obtain ⟨used', h'⟩ := hf a c₁
    exact ⟨used + used', h.bind_ok hc h'⟩

/-- A run that takes no lexeme and leaves the fuel alone. -/
theorem takes_zero {p : Parser α} {c : Cursor} {r : Ending α}
    (hfuel : ∀ fuel, p (c.withFuel fuel) = Ending.withFuel fuel r)
    (hlexemes : (Ending.cursor r).lexemes = c.lexemes)
    (hne : ∀ c', r ≠ .error .outOfFuel c') : Takes p c 0 := by
  refine ⟨?_, ?_, ?_, fun n hn => absurd hn (Nat.not_lt_zero n), fun n => ?_⟩
  · rw [hfuel, ← hlexemes, Nat.zero_add]
    cases r <;> rfl
  · rw [hfuel]
    cases r <;> rfl
  · rw [hfuel]
    cases r with
    | ok a c' => simp [Ending.withFuel]
    | error e c' =>
      rintro _ h
      cases h
      exact hne c' rfl
  · rw [hfuel, hfuel, Nat.zero_add]
    cases r <;> rfl

theorem metered_of_frame {p : Parser α} (h : ∀ c, (Ending.cursor (p c)).lexemes = c.lexemes
      ∧ (∀ c', p c ≠ .error .outOfFuel c')
      ∧ ∀ fuel, p (c.withFuel fuel) = Ending.withFuel fuel (p c)) : Metered p := fun c =>
  ⟨0, takes_zero (h c).2.2 (h c).1 (h c).2.1⟩

theorem metered_pure (a : α) : Metered (pure a) :=
  metered_of_frame fun _ => ⟨rfl, by rintro _ ⟨⟩, fun _ => rfl⟩

theorem metered_throw {e : Failure} (he : e ≠ .outOfFuel) : Metered (throw e : Parser α) := by
  refine metered_of_frame fun c => ⟨rfl, ?_, fun _ => rfl⟩
  rintro c' h
  cases h
  exact he rfl

/-- What is done with the cursor may depend on everything but its fuel. -/
theorem metered_get {f : Cursor → Parser α} (hf : ∀ c, Metered (f c))
    (hfuel : ∀ c fuel, f (c.withFuel fuel) = f c) : Metered (get >>= f) := by
  intro c
  obtain ⟨used, h⟩ := hf c c
  have hrun (fuel : Option Nat) : (get >>= f) (c.withFuel fuel) = f c (c.withFuel fuel) := by
    change f (c.withFuel fuel) (c.withFuel fuel) = _
    rw [hfuel]
  refine ⟨used, ?_, ?_, ?_, fun n hn => ?_, fun n => ?_⟩
  · rw [hrun]
    exact h.length
  · rw [hrun]
    exact h.free
  · rw [hrun]
    exact h.unlimited
  · rw [hrun]
    exact h.short n hn
  · rw [hrun, hrun]
    exact h.enough n

theorem metered_modify {g : Cursor → Cursor} (hlexemes : ∀ c, (g c).lexemes = c.lexemes)
    (hfuel : ∀ c fuel, g (c.withFuel fuel) = (g c).withFuel fuel) :
    Metered (modify g : Parser PUnit) := by
  refine metered_of_frame fun c => ⟨hlexemes c, by rintro _ ⟨⟩, fun fuel => ?_⟩
  change EStateM.Result.ok _ (g (c.withFuel fuel)) = .ok _ ((g c).withFuel fuel)
  rw [hfuel]

theorem metered_fault (f : Fault) : Metered (fault f : Parser α) := metered_throw (by simp)

theorem look_apply (n : Nat) (c : Cursor) : look n c = match c.looks with
    | 0 => .error (.fault .stalled) c
    | looks + 1 => .ok (c.kindAt n) { c with looks } := by
  unfold look
  rw [get_bind_apply]
  cases c.looks <;> rfl

theorem metered_look (n : Nat) : Metered (look n) := by
  refine metered_of_frame fun c => ?_
  have hfuel (fuel : Option Nat) : look n (c.withFuel fuel) = Ending.withFuel fuel (look n c) := by
    rw [look_apply, look_apply]
    change (match c.looks with | 0 => _ | _ + 1 => _) = _
    cases c.looks <;> rfl
  refine ⟨?_, fun c' => ?_, hfuel⟩ <;> rw [look_apply]
  · split <;> rfl
  · split <;> simp

theorem consume_nil {c : Cursor} (h : c.lexemes = []) : consume c = .error (.fault .pastEnd) c := by
  unfold consume
  rw [get_bind_apply, h]
  rfl

/-- How the next lexeme is taken: line terminators come before the fuel. -/
theorem consume_cons {c : Cursor} {l : Lexeme} {rest : List Lexeme} (h : c.lexemes = l :: rest) :
    consume c = match c.looks with
      | 0 => .error (.fault .stalled) c
      | looks + 1 =>
        if l.kind = .garbage then .error (.error ⟨.lineTerminator, l.span, []⟩) { c with looks }
        else match c.fuel with
          | none => .ok l { c with lexemes := rest, looks := c.allowance.looks }
          | some 0 => .error .outOfFuel { c with looks := c.allowance.looks }
          | some (n + 1) =>
            .ok l { c with lexemes := rest, looks := c.allowance.looks, fuel := some n } := by
  have hk : c.kindAt 0 = l.kind := by rw [Cursor.kindAt, h]; rfl
  have hs : c.span = l.span := by rw [Cursor.span, h]
  have hconsume : consume c = (isAt .garbage >>= fun b => if b then fail .lineTerminator else do
      refillLooks
      spendFuel
      modify fun c => { c with lexemes := rest }
      return l) c := by
    unfold consume
    rw [get_bind_apply, h]
  have hat : isAt .garbage c = match c.looks with
      | 0 => .error (.fault .stalled) c
      | looks + 1 => .ok (l.kind == .garbage) { c with looks } := by
    rw [← hk]
    change (look 0 >>= fun k => pure (k == .garbage)) c = _
    simp only [Bind.bind, EStateM.bind, look_apply]
    cases c.looks <;> rfl
  rw [hconsume]
  simp only [Bind.bind, EStateM.bind, hat]
  cases c.looks with
  | zero => rfl
  | succ looks =>
    by_cases hg : l.kind = .garbage
    · simp only [hg, beq_self_eq_true, if_true, ← hs]
      rfl
    · simp only [hg, beq_iff_eq, if_false]
      rcases c with ⟨_, _, _, _, _, _, _ | _ | n, _⟩ <;> rfl

theorem metered_consume : Metered consume := by
  intro c
  cases hc : c.lexemes with
  | nil =>
    refine ⟨0, takes_zero (r := .error (.fault .pastEnd) c) (fun fuel => ?_) rfl (by simp)⟩
    exact consume_nil (c := c.withFuel fuel) hc
  | cons l rest =>
    have hcons (fuel : Option Nat) := consume_cons (c := c.withFuel fuel) hc
    obtain ⟨lexemes, nodes, spliced, delimiters, looks, allowance, fuel, source⟩ := c
    cases looks with
    | zero =>
      exact ⟨0, takes_zero (r := .error (.fault .stalled) _) (fun fuel => hcons fuel) rfl (by simp)⟩
    | succ looks =>
      by_cases hg : l.kind = .garbage
      · refine ⟨0, takes_zero (r := .error (.error ⟨.lineTerminator, l.span, []⟩)
          ⟨lexemes, nodes, spliced, delimiters, looks, allowance, fuel, source⟩) (fun fuel => ?_)
          rfl (by simp)⟩
        exact (hcons fuel).trans (if_pos hg)
      · obtain rfl : lexemes = l :: rest := hc
        have htake (fuel : Option Nat) := (hcons fuel).trans (if_neg hg)
        refine ⟨1, ?_, ?_, ?_, fun n hn => ?_, fun n => ?_⟩
        · rw [htake]
          exact Nat.add_comm _ _
        · rw [htake]
          rfl
        · rw [htake]
          simp
        · obtain rfl : n = 0 := by omega
          exact ⟨_, htake (some 0)⟩
        · rw [Nat.add_comm 1 n, htake, htake]
          rfl

end Parser

theorem Template.run_eq (t : Template) (p : Parser α) (fuel : Option Nat) :
    t.run p fuel = Parser.Ending.outcome (p (t.cursor fuel)) := by
  unfold run EStateM.run
  cases p (t.cursor fuel) <;> rfl

end RegexLiteral
