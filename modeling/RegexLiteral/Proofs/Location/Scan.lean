import Mathlib.Data.List.Induction
import RegexLiteral.Proofs.Tiling
import RegexLiteral.Proofs.Unambiguous

/-!
# What is left open

Reading a text character by character tells what is still open at its end: the class that the last
bracket began, and a backslash that has no code yet. `Scan.of` is this reading, for a text that
begins outside a class. Whatever an element is written with leaves nothing open outside a class
(`Element.steady`), and what stands in a class leaves it open (`ClassAtom.steady`).
-/

namespace RegexLiteral

/-- An odd number of backslashes ends the text, so the last of them has no code. -/
def EndsUnpaired (cs : List Char) : Prop :=
  (cs.reverse.takeWhile (· == '\\')).length % 2 = 1

structure Scan where
  /-- The bytes that have been read. -/
  size : Nat
  /-- Where the bracket stands that began the class. -/
  bracket : Option Nat
  /-- A backslash waits for its code. -/
  escaping : Bool
deriving DecidableEq

namespace Scan

/-- Whatever stands behind a backslash is its code, and a bracket does not open a class in another
one. -/
def step (s : Scan) (c : Char) : Scan :=
  let size := s.size + c.utf8Size
  if s.escaping then ⟨size, s.bracket, false⟩
  else if c = '\\' then ⟨size, s.bracket, true⟩
  else if c = '[' then ⟨size, s.bracket.or (some s.size), false⟩
  else if c = ']' then ⟨size, none, false⟩
  else ⟨size, s.bracket, false⟩

def of (cs : List Char) : Scan := cs.foldl step ⟨0, none, false⟩

theorem of_append (a b : List Char) : of (a ++ b) = b.foldl step (of a) := List.foldl_append

theorem of_concat (cs : List Char) (c : Char) : of (cs ++ [c]) = (of cs).step c := of_append cs [c]

theorem size_step (s : Scan) (c : Char) : (s.step c).size = s.size + c.utf8Size := by
  unfold step
  simp only []
  repeat' split
  all_goals rfl

theorem escaping_step (s : Scan) (c : Char) : (s.step c).escaping = (!s.escaping && c == '\\') := by
  unfold step
  simp only []
  repeat' split
  all_goals simp_all

/-- A backslash waits for its code behind an odd number of backslashes. -/
theorem escaping_iff {cs : List Char} : (of cs).escaping = true ↔ EndsUnpaired cs := by
  induction cs using List.reverseRecOn with
  | nil => simp [of, EndsUnpaired]
  | append_singleton cs c ih =>
    unfold EndsUnpaired at ih ⊢
    rw [of_concat, escaping_step, Bool.and_eq_true, Bool.not_eq_true', ← Bool.not_eq_true, ih,
      List.reverse_append, List.reverse_singleton, List.singleton_append, List.takeWhile_cons]
    by_cases hc : c = '\\'
    · simp only [hc, beq_self_eq_true, if_true, and_true, List.length_cons]
      omega
    · simp [hc]

theorem bracket_step (s : Scan) (c : Char) : (s.step c).bracket
    = if s.escaping then s.bracket else if c = '[' then s.bracket.or (some s.size)
      else if c = ']' then none else s.bracket := by
  unfold step
  simp only []
  repeat' split
  all_goals simp_all

theorem size_of (cs : List Char) : (of cs).size = byteSize cs := by
  induction cs using List.reverseRecOn with
  | nil => rfl
  | append_singleton cs c ih => rw [of_concat, size_step, ih]; simp

/-! ## What the end of a scan says -/

/-- A text that waits for a code ends in a backslash that is not itself one. -/
theorem exists_of_escaping {cs : List Char} (h : (of cs).escaping = true) :
    ∃ before, cs = before ++ ['\\'] ∧ (of before).escaping = false := by
  induction cs using List.reverseRecOn with
  | nil => simp [of] at h
  | append_singleton cs c _ =>
    rw [of_concat, escaping_step] at h
    obtain ⟨he, hc⟩ := Bool.and_eq_true_iff.1 h
    exact ⟨cs, by rw [eq_of_beq hc], by simpa using he⟩

/-- The bracket of a class that is still open: nothing was open before it, and every closing
bracket behind it is the code of a backslash. -/
theorem exists_of_bracket {cs : List Char} {n : Nat} (h : (of cs).bracket = some n) :
    ∃ before after, cs = before ++ '[' :: after ∧ n = byteSize before
      ∧ (of before).bracket = none ∧ (of before).escaping = false
      ∧ ∀ u v, after = u ++ ']' :: v → EndsUnpaired (before ++ '[' :: u) := by
  induction cs using List.reverseRecOn with
  | nil => simp [of] at h
  | append_singleton cs c ih =>
    rw [of_concat, bracket_step] at h
    by_cases hopens : (of cs).bracket = none
    · -- The class is begun by the last character.
      have hc : c = '[' ∧ (of cs).escaping = false ∧ n = (of cs).size := by
        rw [hopens] at h
        repeat' split at h
        all_goals simp_all
      obtain ⟨rfl, he, rfl⟩ := hc
      exact ⟨cs, [], rfl, size_of cs, hopens, he, by simp⟩
    · -- The class was open before, and the last character does not close it.
      have hc : (of cs).bracket = some n ∧ (c = ']' → (of cs).escaping = true) := by
        obtain ⟨m, hm⟩ := Option.ne_none_iff_exists'.1 hopens
        rw [hm] at h ⊢
        repeat' split at h
        all_goals simp_all
      obtain ⟨before, after, rfl, hn, hb, he, hclose⟩ := ih hc.1
      refine ⟨before, after ++ [c], by simp, hn, hb, he, fun u v huv => ?_⟩
      rcases List.eq_nil_or_concat v with rfl | ⟨v, d, rfl⟩
      · obtain ⟨rfl, hlast⟩ := List.append_inj' huv rfl
        exact escaping_iff.1 (hc.2 (List.cons.inj hlast).1)
      · have hlast : after ++ [c] = (u ++ ']' :: v) ++ [d] := by simpa using huv
        exact hclose u v (List.append_inj' hlast rfl).1

/-! ## What leaves nothing open -/

/-- Before and after the text the class begun at `b` is open and no backslash waits. -/
def Steady (b : Option Nat) (cs : List Char) : Prop :=
  ∀ n, cs.foldl step ⟨n, b, false⟩ = ⟨n + byteSize cs, b, false⟩

section Steady

variable {b : Option Nat} {cs ds : List Char} {c : Char}

theorem steady_nil (b : Option Nat) : Steady b [] := fun _ => rfl

theorem Steady.append (h : Steady b cs) (h' : Steady b ds) : Steady b (cs ++ ds) := by
  intro n
  rw [List.foldl_append, h n, h' _, byteSize_append, Nat.add_assoc]

theorem steady_singleton (h : c ≠ '\\') (hb : c = '[' → b ≠ none) (hb' : c = ']' → b = none) :
    Steady b [c] := by
  intro n
  by_cases hopen : c = '['
  · obtain ⟨p, rfl⟩ := Option.ne_none_iff_exists'.1 (hb hopen)
    simp [step, hopen]
  · by_cases hclose : c = ']'
    · simp [step, hclose, hb' hclose]
    · simp [step, h, hopen, hclose]

theorem steady_inside (p : Nat) (h : c ≠ '\\') (h' : c ≠ ']') : Steady (some p) [c] :=
  steady_singleton h (fun _ => Option.some_ne_none p) fun hc => absurd hc h'

/-- A backslash and its code, whatever this is. -/
theorem steady_pair (b : Option Nat) (code : Char) : Steady b ['\\', code] := by
  intro n
  simp [step, Nat.add_assoc]

theorem steady_flatMap {α : Type} {f : α → List Char} {as : List α}
    (h : ∀ a ∈ as, Steady b (f a)) : Steady b (as.flatMap f) := by
  induction as with
  | nil => exact steady_nil b
  | cons a as ih =>
    rw [List.flatMap_cons]
    exact (h a List.mem_cons_self).append (ih fun a ha => h a (List.mem_cons_of_mem _ ha))

/-- Outside a class only an opening bracket and a backslash open anything. -/
theorem steady_of_forall (h : ∀ c ∈ cs, c ≠ '\\' ∧ c ≠ '[') : Steady none cs := by
  induction cs with
  | nil => exact steady_nil none
  | cons c cs ih =>
    obtain ⟨hslash, hopen⟩ := h c List.mem_cons_self
    exact (steady_singleton hslash (fun hc => absurd hc hopen) fun _ => rfl).append
      (ih fun c hc => h c (List.mem_cons_of_mem _ hc))

/-- Between brackets stands what leaves the class open. -/
theorem steady_brackets (h : ∀ p, Steady (some p) cs) : Steady none ('[' :: (cs ++ [']'])) := by
  intro n
  have hopen : step ⟨n, none, false⟩ '[' = ⟨n + '['.utf8Size, some n, false⟩ := rfl
  rw [List.foldl_cons, hopen, List.foldl_append, h n]
  simp [step, Nat.add_assoc]

end Steady

end Scan

open Scan

namespace Written

theorem ClassAtom.steady (p : Nat) (a : ClassAtom) :
    Steady (some p) (a.items.flatMap Item.chars) := by
  cases a with
  | char c bare => exact steady_inside p bare.2 bare.1
  | pair code => exact steady_pair _ code
  | node n e taken => exact steady_nil _

theorem ClassAtom.steady_flatMap (p : Nat) (as : List ClassAtom) :
    Steady (some p) ((as.flatMap ClassAtom.items).flatMap Item.chars) := by
  rw [List.flatMap_assoc]
  exact Scan.steady_flatMap fun a _ => a.steady p

theorem Atom.steady (a : Atom) : Steady none (a.items.flatMap Item.chars) := by
  cases a with
  | literal c bare =>
    refine steady_singleton ?_ ?_ fun _ => rfl <;> rintro rfl <;> simp [reserved] at bare
  | pair code => exact steady_pair _ code
  | charClass body =>
    have := steady_brackets fun p => ClassAtom.steady_flatMap p body
    simpa [items, Item.chars] using this
  | node n a taken => exact steady_nil _

theorem Sigil.chars_form (s : Sigil) : (∃ a ∈ signs, s.items.flatMap Item.chars = [a])
    ∨ BraceForm (s.items.flatMap Item.chars) := by
  cases s with
  | plus => exact .inl ⟨'+', by simp [signs], rfl⟩
  | star => exact .inl ⟨'*', by simp [signs], rfl⟩
  | question => exact .inl ⟨'?', by simp [signs], rfl⟩
  | exactly n =>
    have h := BraceForm.exactly n.digits_ne_nil n.isDigit_of_mem
    exact .inr (by simpa [items, Number.items, Item.chars] using h)
  | atLeast n =>
    have h := BraceForm.atLeast n.digits_ne_nil n.isDigit_of_mem
    exact .inr (by simpa [items, Number.items, Item.chars] using h)
  | between n m _ =>
    have h := BraceForm.between n.digits_ne_nil n.isDigit_of_mem m.digits_ne_nil m.isDigit_of_mem
    exact .inr (by simpa [items, Number.items, Item.chars] using h)

theorem Sigil.steady (s : Sigil) : Steady none (s.items.flatMap Item.chars) := by
  refine steady_of_forall ?_
  rcases s.chars_form with ⟨a, ha, h⟩ | h
  · have hsigns : ∀ a ∈ signs, a ≠ '\\' ∧ a ≠ '[' := by simp [signs]
    rw [h]
    intro c hc
    exact List.mem_singleton.1 hc ▸ hsigns a ha
  · intro c hc
    have hmem := h.mem hc
    constructor <;> rintro rfl <;> simp [Text.isDigit] at hmem

theorem Element.steady (e : Element) : Steady none (e.items.flatMap Item.chars) := by
  cases e with
  | atom a => exact a.steady
  | repeated a s =>
    rw [items, List.flatMap_append]
    exact a.steady.append s.steady
  | quantifier q => exact steady_nil _

theorem Alternative.steady (a : Alternative) : Steady none (a.items.flatMap Item.chars) := by
  rw [items, List.flatMap_assoc]
  exact Scan.steady_flatMap fun e _ => e.steady

end Written

end RegexLiteral
