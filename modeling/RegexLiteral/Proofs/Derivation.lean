import RegexLiteral.Proofs.Reading.Literal

/-!
# What is read, and as what

A template is read if a derivation has its items, and the result is the tree of that derivation
(`Template.parse_eq_ok_iff`). Fuel counts the items. What is not read breaks the grammar or takes
more fuel than there is; the parser never breaks a rule of its own (`Template.parse_isProper`).
-/

namespace RegexLiteral

/-- The derivation is one of the template: it uses up the lexemes, with the nodes at the cuts, and
no line terminator is among them. -/
structure Written.Derives (w : Written) (t : Template) : Prop where
  items : itemsOf t.lexemes t.substitutions = w.items
  clean : ∀ i ∈ w.items, i.kind ≠ .garbage
  nodes : t.substitutions = w.items.filterMap Item.node?

/-- If a limit is given, it is at least `n`. -/
def HasFuel (fuel : Option Nat) (n : Nat) : Prop := ∀ limit, fuel = some limit → n ≤ limit

theorem exists_of_isOk {ε α : Type} {r : Except ε α} (h : r.isOk) : ∃ a, r = .ok a := by
  cases r with
  | ok a => exact ⟨a, rfl⟩
  | error e => cases h

namespace Template

open RegexLiteral.Parser

variable {t : Template} {production : Production} {fuel : Option Nat} {n : Node}

theorem run_map {α β : Type} (t : Template) (f : α → β) (p : Parser α) (fuel : Option Nat) :
    t.run (f <$> p) fuel = (t.run p fuel).map f := by
  rw [map_eq_pure_bind]
  unfold run EStateM.run
  simp only [Bind.bind, EStateM.bind]
  cases p (t.cursor fuel) <;> rfl

theorem run_of_yields {α : Type} {p : Parser α} {post : α → Cursor → Prop}
    {fails : Failure → Prop} (h : Yields p (t.cursor fuel) post fails) :
    (∃ a c, t.run p fuel = .ok a ∧ post a c) ∨ ∃ e, t.run p fuel = .error e ∧ fails e := by
  unfold Yields at h
  unfold run EStateM.run
  cases hp : p (t.cursor fuel) with
  | ok a c =>
    rw [hp] at h
    exact .inl ⟨a, c, rfl, h⟩
  | error e c =>
    rw [hp] at h
    exact .inr ⟨e, rfl, h⟩

theorem parse_yields {fails : Failure → Prop}
    (hf : FailsUnless (WholeAhead production (t.cursor fuel)) fails) :
    (∃ w : Written, w.production = production ∧ w.Derives t ∧ HasFuel fuel w.items.length
      ∧ t.parse production fuel = .ok w.tree)
      ∨ ∃ e, t.parse production fuel = .error e ∧ fails e := by
  have h := production_yields (Cursor.regular_cursor t fuel) lookAllowance.enough hf
  refine (run_of_yields h).imp_left ?_
  intro hex
  obtain ⟨_, c, hrun, w, hw, rfl, hr, hnil, hs⟩ := hex
  refine ⟨w, hw, ⟨?_, hr.clean, ?_⟩, ?_, hrun⟩
  · have hi := hr.items
    rwa [hnil, List.append_nil] at hi
  · have hn := hr.substitutions
    rwa [hs, List.append_nil] at hn
  · intro limit hlimit
    have hfuel : some limit = c.fuel.map (· + w.items.length) := hlimit.symm.trans hr.fuel
    cases hc : c.fuel with
    | none =>
      rw [hc] at hfuel
      cases hfuel
    | some k =>
      rw [hc] at hfuel
      have : limit = k + w.items.length := Option.some.inj hfuel
      omega

/-- The parser never looks for ever, never consumes past the end, never makes an unsound node, and
breaks none of its other rules. -/
theorem parse_isProper {e : Failure} (h : t.parse production fuel = .error e) : e.IsProper := by
  rcases parse_yields (failsUnless_isProper (WholeAhead production (t.cursor fuel)))
    with ⟨w, -, -, -, hw⟩ | ⟨e', he', hproper⟩
  · cases h.symm.trans hw
  · cases h.symm.trans he'
    exact hproper

/-- A template is read if and only if it has a derivation that the fuel suffices for. -/
theorem parse_eq_ok_iff : t.parse production fuel = .ok n ↔ ∃ w : Written,
    w.production = production ∧ w.Derives t ∧ HasFuel fuel w.items.length ∧ n = w.tree := by
  constructor
  · intro h
    rcases parse_yields (failsUnless_isProper (WholeAhead production (t.cursor fuel)))
      with ⟨w, hw, hd, hfuel, hok⟩ | ⟨e, he, -⟩
    · exact ⟨w, hw, hd, hfuel, Except.ok.inj (h.symm.trans hok)⟩
    · cases h.symm.trans he
  · intro hex
    obtain ⟨w, hw, hd, hfuel, rfl⟩ := hex
    have hwhole : WholeAhead production (t.cursor fuel) :=
      ⟨w, hw, ⟨hd.items.trans (List.append_nil _).symm, hd.clean, hfuel⟩, hd.nodes⟩
    rcases parse_yields (failsUnless_false hwhole) with ⟨v, hv, hdv, -, hok⟩ | ⟨e, -, hfalse⟩
    · have hvw : v = w :=
        Written.items_inj (hv.trans hw.symm) (hdv.items.symm.trans hd.items)
      rw [← hvw]
      exact hok
    · exact hfalse.elim

end Template

end RegexLiteral
