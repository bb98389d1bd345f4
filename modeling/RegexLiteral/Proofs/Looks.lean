import RegexLiteral.Proofs.Derivation
import RegexLiteral.Proofs.Metered
import RegexLiteral.Proofs.Stepwise

/-!
# The looks between two lexemes

Two runs that are allowed different numbers of looks go alike, unless one of them is stopped for
looking too often (`Patient`). That holds of every step, since the only steps that look at what is
left of the looks are those that look ahead and take a lexeme. No run of the grammar is stopped, so
all allowances give the same (`Template.parseAllowing_eq`): between two lexemes that it takes, and
before the first and behind the last, the parser looks at most as often as the smallest allowance
has it.
-/

namespace RegexLiteral

namespace Cursor

variable (c : Cursor) (looks : Nat) (allowance : LookAllowance)

/-- With other looks left, and another number of them given back by each lexeme that is taken. -/
def allowing : Cursor := { c with looks, allowance }

@[simp] theorem looks_allowing : (c.allowing looks allowance).looks = looks := rfl

@[simp] theorem fuel_allowing : (c.allowing looks allowance).fuel = c.fuel := rfl

end Cursor

namespace Parser

variable {α β : Type} {allowance : LookAllowance}

/-- The runs end alike, and the second with the given allowance, unless one of them is stopped. -/
inductive Ending.Level (allowance : LookAllowance) : Ending α → Ending α → Prop
  | stalledFirst (c : Cursor) (r : Ending α) : Level allowance (.error (.fault .stalled) c) r
  | stalledSecond (c : Cursor) (r : Ending α) : Level allowance r (.error (.fault .stalled) c)
  | ok (a : α) (c : Cursor) (looks : Nat) :
    Level allowance (.ok a c) (.ok a (c.allowing looks allowance))
  | error (e : Failure) (c : Cursor) (looks : Nat) :
    Level allowance (.error e c) (.error e (c.allowing looks allowance))

/-- How many looks are allowed changes nothing, unless they are too few. -/
def Patient (p : Parser α) : Prop := ∀ (c : Cursor) (looks : Nat) (allowance : LookAllowance),
  Ending.Level allowance (p c) (p (c.allowing looks allowance))

theorem patient_pure (a : α) : Patient (pure a) := fun c looks _ => .ok a c looks

theorem patient_throw (e : Failure) : Patient (throw e : Parser α) :=
  fun c looks _ => .error e c looks

theorem Patient.bind {p : Parser α} {f : α → Parser β} (hp : Patient p)
    (hf : ∀ a, Patient (f a)) : Patient (p >>= f) := by
  intro c looks allowance
  have h := hp c looks allowance
  simp only [Bind.bind, EStateM.bind]
  generalize p c = r, p (c.allowing looks allowance) = r' at h
  cases h with
  | stalledFirst c₁ => exact .stalledFirst c₁ _
  | stalledSecond c₁ => exact .stalledSecond c₁ _
  | ok a c₁ looks₁ => exact hf a c₁ looks₁ allowance
  | error e c₁ looks₁ => exact .error e c₁ looks₁

theorem patient_get {f : Cursor → Parser α} (hf : ∀ c, Patient (f c))
    (hlooks : ∀ c looks allowance, f (c.allowing looks allowance) = f c) :
    Patient (get >>= f) := by
  intro c looks allowance
  rw [get_bind_apply, get_bind_apply, hlooks]
  exact hf c c looks allowance

theorem patient_modify {g : Cursor → Cursor} (hlooks : ∀ c looks allowance,
    g (c.allowing looks allowance) = (g c).allowing looks allowance) :
    Patient (modify g : Parser PUnit) := by
  intro c looks allowance
  change Ending.Level allowance (.ok _ (g c)) (.ok _ (g (c.allowing looks allowance)))
  rw [hlooks]
  exact .ok _ _ _

theorem patient_look (n : Nat) : Patient (look n) := by
  intro c looks allowance
  rw [look_apply, look_apply]
  cases c.looks with
  | zero => exact .stalledFirst _ _
  | succ left =>
    cases looks with
    | zero => exact .stalledSecond _ _
    | succ looks => exact .ok (c.kindAt n) { c with looks := left } looks

theorem patient_consume : Patient consume := by
  intro c looks allowance
  cases hc : c.lexemes with
  | nil =>
    rw [consume_nil hc, consume_nil (c := c.allowing looks allowance) hc]
    exact .error _ c looks
  | cons l rest =>
    rw [consume_cons hc, consume_cons (c := c.allowing looks allowance) hc]
    cases c.looks with
    | zero => exact .stalledFirst _ _
    | succ left =>
      cases looks with
      | zero => exact .stalledSecond _ _
      | succ looks =>
        simp only [Cursor.looks_allowing, Cursor.fuel_allowing]
        by_cases hg : l.kind = .garbage
        · rw [if_pos hg, if_pos hg]
          exact .error _ { c with looks := left } looks
        rw [if_neg hg, if_neg hg]
        -- from here on the looks are those that the lexeme gives back
        rcases c.fuel with _ | _ | n
        · exact .ok l { c with lexemes := rest, looks := c.allowance.looks, fuel := none } _
        · exact .error _ { c with looks := c.allowance.looks, fuel := some 0 } _
        · exact .ok l { c with lexemes := rest, looks := c.allowance.looks, fuel := some n } _

theorem elementary_patient : Elementary Patient where
  pure := patient_pure
  bind := Patient.bind
  fault _ := patient_throw _
  look := patient_look
  get hf hsame := patient_get hf fun c looks allowance => hsame c looks allowance c.fuel
  modify _ hsame := patient_modify fun c looks allowance =>
    (hsame c looks allowance c.fuel).trans
      (congrArg (·.allowing looks allowance) (hsame c c.looks c.allowance c.fuel)).symm
  throw _ := patient_throw _
  consume := patient_consume

theorem Ending.Level.outcome_eq {r r' : Ending α} (h : Ending.Level allowance r r')
    (hr : Ending.outcome r ≠ .error (.fault .stalled))
    (hr' : Ending.outcome r' ≠ .error (.fault .stalled)) :
    Ending.outcome r' = Ending.outcome r := by
  cases h with
  | stalledFirst c => exact absurd rfl hr
  | stalledSecond c => exact absurd rfl hr'
  | ok | error => rfl

/-- Twelve looks are enough. -/
theorem outcome_ne_stalled {c : Cursor} (hreg : c.Regular) (hl : 12 ≤ c.looks)
    (production : Production) :
    Ending.outcome (production.parser c) ≠ .error (.fault .stalled) := by
  have h := production_yields hreg hl (failsUnless_isProper (WholeAhead production c))
  unfold Yields at h
  intro hstalled
  cases hp : production.parser c with
  | ok n c' =>
    rw [hp] at hstalled
    cases hstalled
  | error e c' =>
    rw [hp] at h hstalled
    cases hstalled
    exact h

end Parser

namespace Template

open RegexLiteral.Parser

variable (t : Template) (allowance : LookAllowance) (production : Production) (fuel : Option Nat)

/-- Reads the whole template with another number of looks between two lexemes. -/
def parseAllowing : Except Failure Node :=
  Ending.outcome (production.parser ((t.cursor fuel).allowing allowance.looks allowance))

theorem parseAllowing_lookAllowance :
    t.parseAllowing lookAllowance production fuel = t.parse production fuel := (t.run_eq _ _).symm

/-- A number of looks that is enough for any parser changes nothing. -/
theorem parseAllowing_eq :
    t.parseAllowing allowance production fuel = t.parse production fuel := by
  rw [← parseAllowing_lookAllowance]
  have hreg := Cursor.regular_cursor t fuel
  have hfirst := outcome_ne_stalled hreg lookAllowance.enough production
  have hsecond := outcome_ne_stalled
    (c := (t.cursor fuel).allowing allowance.looks allowance) ⟨hreg.placed, hreg.delimited⟩
    allowance.enough production
  exact (elementary_patient.production production (t.cursor fuel) allowance.looks
    allowance).outcome_eq hfirst hsecond

end Template

end RegexLiteral
