import Mathlib.Data.Nat.Digits.Defs
import RegexLiteral.Dump.Typed
import RegexLiteral.Proofs.PrefixCode

/-!
# Quoted text can be read back

Every character is quoted by a code, and no code is the beginning of another (`Quoting.Code.inj`).
So a quoted text and the quote behind it tell the text, whatever follows. That holds for every
quoting that guards the backslash and whose letters mean one thing only, and so for the dump of a
typed tree (`prefixCode_dumpQuoted`).
-/

namespace RegexLiteral

namespace Text

/-! ## Hexadecimal digits -/

theorem digitChar_inj : ∀ m < 16, ∀ n < 16, Nat.digitChar m = Nat.digitChar n → m = n := by
  decide

namespace Quoting

theorem hexDigits_of_lt {n : Nat} (h : n < 16) : hexDigits n = [n.digitChar] :=
  Nat.toDigits_of_lt_base h

theorem hexDigits_of_le {n : Nat} (h : 16 ≤ n) :
    hexDigits n = hexDigits (n / 16) ++ [(n % 16).digitChar] :=
  Nat.toDigits_of_base_le (by simp) h

theorem hexDigits_ne_nil (n : Nat) : hexDigits n ≠ [] := Nat.toDigits_ne_nil

theorem exists_of_mem_hexDigits {c : Char} (n : Nat) (h : c ∈ hexDigits n) :
    ∃ k < 16, c = Nat.digitChar k := by
  induction n using Nat.strongRecOn with
  | ind n ih =>
    by_cases hn : n < 16
    · rw [hexDigits_of_lt hn, List.mem_singleton] at h
      exact ⟨n, hn, h⟩
    · rw [hexDigits_of_le (by omega), List.mem_append, List.mem_singleton] at h
      rcases h with h | h
      · exact ih (n / 16) (by omega) h
      · exact ⟨n % 16, by omega, h⟩

theorem not_mem_hexDigits {c : Char} (h : ∀ k < 16, c ≠ Nat.digitChar k) (n : Nat) :
    c ∉ hexDigits n := by
  intro hc
  obtain ⟨k, hk, rfl⟩ := exists_of_mem_hexDigits n hc
  exact h k hk rfl

theorem hexDigits_inj {m n : Nat} (h : hexDigits m = hexDigits n) : m = n := by
  induction m using Nat.strongRecOn generalizing n with
  | ind m ih =>
    by_cases hm : m < 16
    · by_cases hn : n < 16
      · rw [hexDigits_of_lt hm, hexDigits_of_lt hn] at h
        exact digitChar_inj m hm n hn (List.cons.inj h).1
      · rw [hexDigits_of_lt hm, hexDigits_of_le (Nat.le_of_not_lt hn)] at h
        have hlength := congrArg List.length h
        simp [hexDigits_ne_nil] at hlength
    · by_cases hn : n < 16
      · rw [hexDigits_of_lt hn, hexDigits_of_le (Nat.le_of_not_lt hm)] at h
        have hlength := congrArg List.length h
        simp [hexDigits_ne_nil] at hlength
      · rw [hexDigits_of_le (Nat.le_of_not_lt hm), hexDigits_of_le (Nat.le_of_not_lt hn)] at h
        obtain ⟨hdiv, hmod⟩ := List.append_inj' h rfl
        have hd := ih (m / 16) (by omega) hdiv
        have hr := digitChar_inj _ (Nat.mod_lt m (by omega)) _ (Nat.mod_lt n (by omega))
          (List.cons.inj hmod).1
        omega

/-! ## Codes -/

variable {q : Quoting}

/-- How a character is written. -/
inductive Code (q : Quoting) (c : Char) : List Char → Prop
  | guarded (h : c ∈ q.guarded) : Code q c ['\\', c]
  | lettered {letter : Char} (h : q.lettered.lookup c = some letter) : Code q c ['\\', letter]
  | numbered : Code q c ('\\' :: 'u' :: '\x7b' :: (hexDigits c.toNat ++ ['\x7d']))
  | plain (h : c ∉ q.guarded) (h' : q.lettered.lookup c = none) : Code q c [c]

theorem code_char (q : Quoting) (c : Char) : q.Code c (q.char c) := by
  unfold char
  split
  · rename_i h
    exact .guarded h
  split
  · rename_i h
    exact .lettered h
  split
  · exact .numbered
  · rename_i hg _ hl _
    exact .plain hg hl

/-- Behind a backslash every character means one thing only. -/
structure IsReadable (q : Quoting) : Prop where
  backslash : '\\' ∈ q.guarded
  number : 'u' ∉ q.guarded
  letters : ∀ c letter, q.lettered.lookup c = some letter → letter ∉ q.guarded ∧ letter ≠ 'u'
  letters_inj : ∀ c d letter, q.lettered.lookup c = some letter →
    q.lettered.lookup d = some letter → c = d

/-- A character that is written as it is does not begin another code. -/
theorem IsReadable.ne_of_not_mem (hq : q.IsReadable) {c : Char} (h : c ∉ q.guarded) : '\\' ≠ c := by
  rintro rfl
  exact h hq.backslash

/-- No code is the beginning of another. -/
theorem Code.inj (hq : q.IsReadable) {c d : Char} {u v x y : List Char} (hc : q.Code c u)
    (hd : q.Code d v) (h : u ++ x = v ++ y) : c = d ∧ x = y := by
  cases hc with
  | guarded hg =>
    cases hd with
    | guarded => simpa using h
    | lettered hl =>
      obtain ⟨rfl, -⟩ : c = _ ∧ _ := by simpa using h
      exact absurd hg (hq.letters _ _ hl).1
    | numbered =>
      obtain ⟨rfl, -⟩ : c = 'u' ∧ _ := by simpa using h
      exact absurd hg hq.number
    | plain hp => exact absurd (List.cons.inj h).1 (hq.ne_of_not_mem hp)
  | lettered hl =>
    cases hd with
    | guarded hg =>
      obtain ⟨rfl, -⟩ : _ = d ∧ _ := by simpa using h
      exact absurd hg (hq.letters _ _ hl).1
    | lettered hl' =>
      obtain ⟨rfl, hxy⟩ : _ = _ ∧ x = y := by simpa using h
      exact ⟨hq.letters_inj _ _ _ hl hl', hxy⟩
    | numbered =>
      obtain ⟨hu, -⟩ : _ = 'u' ∧ _ := by simpa using h
      exact absurd hu (hq.letters _ _ hl).2
    | plain hp => exact absurd (List.cons.inj h).1 (hq.ne_of_not_mem hp)
  | numbered =>
    cases hd with
    | guarded hg =>
      obtain ⟨rfl, -⟩ : 'u' = d ∧ _ := by simpa using h
      exact absurd hg hq.number
    | lettered hl =>
      obtain ⟨hu, -⟩ : 'u' = _ ∧ _ := by simpa using h
      exact absurd hu.symm (hq.letters _ _ hl).2
    | numbered =>
      have hdigits : hexDigits c.toNat ++ '\x7d' :: x = hexDigits d.toNat ++ '\x7d' :: y := by
        simpa using h
      obtain ⟨hn, hxy⟩ := append_cons_inj (not_mem_hexDigits (by simp) _)
        (not_mem_hexDigits (by simp) _) hdigits
      exact ⟨Char.toNat_inj.1 (hexDigits_inj hn), hxy⟩
    | plain hp => exact absurd (List.cons.inj h).1 (hq.ne_of_not_mem hp)
  | plain hp =>
    cases hd with
    | plain => simpa using h
    | _ => exact absurd (List.cons.inj h).1.symm (hq.ne_of_not_mem hp)

theorem prefixCode_char (hq : q.IsReadable) : PrefixCode q.char :=
  fun c d _ _ h => (code_char q c).inj hq (code_char q d) h

/-- A quoted text ends with the first quote that is not guarded. -/
theorem flatMap_char_inj (hq : q.IsReadable) {quote : Char} (hquote : quote ∈ q.guarded)
    (hne : quote ≠ '\\') {cs ds x y : List Char}
    (h : cs.flatMap q.char ++ quote :: x = ds.flatMap q.char ++ quote :: y) : cs = ds ∧ x = y := by
  have hend (z : List Char) (c : Char) (w : List Char) : quote :: z ≠ q.char c ++ w := by
    intro hz
    have hcode := q.code_char c
    generalize q.char c = u at hz hcode
    cases hcode with
    | plain hp => exact hp ((List.cons.inj hz).1 ▸ hquote)
    | _ => exact hne (List.cons.inj hz).1
  obtain ⟨rfl, hxy⟩ := (prefixCode_char hq).flatMap_append_inj (hend x) (hend y) h
  exact ⟨rfl, (List.cons.inj hxy).2⟩

end Quoting

/-! ## Quotes in a dump -/

theorem mem_of_lookup {α β : Type} [BEq α] [LawfulBEq α] {a : α} {b : β} {ps : List (α × β)}
    (h : ps.lookup a = some b) : (a, b) ∈ ps := by
  obtain ⟨before, after, rfl, -⟩ := List.lookup_eq_some_iff.1 h
  simp

theorem isReadable_dumpQuoting : dumpQuoting.IsReadable where
  backslash := by simp [dumpQuoting]
  number := by simp [dumpQuoting]
  letters c letter h := by
    have hall : ∀ p ∈ dumpQuoting.lettered, p.2 ∉ dumpQuoting.guarded ∧ p.2 ≠ 'u' := by
      simp [dumpQuoting]
    exact hall _ (mem_of_lookup h)
  letters_inj c d letter hc hd := by
    have hall : ∀ p ∈ dumpQuoting.lettered, ∀ p' ∈ dumpQuoting.lettered,
        p.2 = p'.2 → p.1 = p'.1 := by
      simp [dumpQuoting]
    exact hall _ (mem_of_lookup hc) _ (mem_of_lookup hd) rfl

theorem prefixCode_dumpQuoted : PrefixCode fun s => (dumpQuoted s).toList := by
  intro s t x y h
  simp only [dumpQuoted, Quoting.text, String.toList_append, String.toList_ofList] at h
  have hquote : '\x27' ∈ dumpQuoting.guarded := by simp [dumpQuoting]
  obtain ⟨hst, hxy⟩ := Quoting.flatMap_char_inj isReadable_dumpQuoting hquote (by simp)
    (by simpa using h)
  exact ⟨String.toList_injective hst, hxy⟩

/-- A quoted text stays on its line. -/
theorem newline_not_mem_dumpQuoted (s : String) : '\n' ∉ (dumpQuoted s).toList := by
  have hchar : ∀ c, '\n' ∉ dumpQuoting.char c := by
    intro c hmem
    have hcode := dumpQuoting.code_char c
    generalize dumpQuoting.char c = u at hmem hcode
    cases hcode with
    | guarded h =>
      obtain rfl : '\n' = c := by simpa using hmem
      exact absurd h (by simp [dumpQuoting])
    | lettered h =>
      have hall : ∀ p ∈ dumpQuoting.lettered, p.2 ≠ '\n' := by simp [dumpQuoting]
      obtain rfl : '\n' = _ := by simpa using hmem
      exact hall _ (mem_of_lookup h) rfl
    | numbered =>
      have := Quoting.not_mem_hexDigits (c := '\n') (by simp) c.toNat
      simp [this] at hmem
    | plain _ h =>
      obtain rfl : '\n' = c := by simpa using hmem
      exact absurd h (by simp [dumpQuoting])
  simpa [dumpQuoted, Quoting.text] using fun c _ => hchar c

end Text

end RegexLiteral
