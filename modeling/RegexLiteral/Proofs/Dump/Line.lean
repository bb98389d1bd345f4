import RegexLiteral.Proofs.Dump.Token

/-!
# Lines of a dump

The first line of a dump has no label, and every line below it has one. A label holds no blank and
no colon, and what stands on a line does not run over its end. So the text of a dump tells its
lines: how deep each lies, its label, and what stands there (`join_text_inj`).
-/

namespace RegexLiteral

/-! ## Labels -/

/-- Holds neither the blanks before a label nor the colon behind it. -/
def IsLabel (s : String) : Prop := ' ' ∉ s.toList ∧ ':' ∉ s.toList

theorem toList_indexed (label : String) (i : Nat) : (indexed label i).toList
    = label.toList ++ '[' :: (Nat.toDigits 10 i ++ [']']) := by
  simp [indexed]

theorem not_mem_toDigits {c : Char} (hc : ¬ c.isDigit) (n : Nat) : c ∉ Nat.toDigits 10 n :=
  fun h => hc (Nat.isDigit_of_mem_toDigits (by simp) (by simp) h)

theorem IsLabel.indexed {label : String} (h : IsLabel label) (i : Nat) :
    IsLabel (indexed label i) := by
  have hblank := not_mem_toDigits (c := ' ') (by simp) i
  have hcolon := not_mem_toDigits (c := ':') (by simp) i
  unfold IsLabel
  simp [toList_indexed, h.1, h.2, hblank, hcolon]

/-- A label without an index is no label with one. -/
theorem indexed_ne {s : String} (hs : '[' ∉ s.toList) (label : String) (i : Nat) :
    s ≠ indexed label i := by
  rintro rfl
  simp [toList_indexed] at hs

theorem indexed_ne_indexed {label label' : String} (h : '[' ∉ label.toList)
    (h' : '[' ∉ label'.toList) (hne : label ≠ label') (i j : Nat) :
    indexed label i ≠ indexed label' j := by
  intro heq
  have hlist := congrArg String.toList heq
  rw [toList_indexed, toList_indexed] at hlist
  exact hne (String.toList_injective (append_cons_inj h h' hlist).1)

/-! ## Lines -/

namespace DumpLine

/-- A line below the first. -/
structure Labelled (l : DumpLine) : Prop where
  label : ∃ s, l.label = some s ∧ IsLabel s
  content : '\n' ∉ l.content.toList

theorem toList_text_labelled (depth : Nat) (label content : String) :
    (DumpLine.mk depth (some label) content).text.toList
      = (List.replicate (2 * depth) ' ' ++ label.toList)
        ++ ':' :: ' ' :: (content.toList ++ ['\n']) := by
  simp [text, indentation]

theorem toList_text_root (content : String) :
    (DumpLine.mk 0 none content).text.toList = content.toList ++ ['\n'] := by
  simp [text, indentation]

/-- The blanks before a label tell how deep its line lies. -/
theorem depth_label_inj {d e : Nat} {s t : List Char} (hs : ' ' ∉ s) (ht : ' ' ∉ t)
    (h : List.replicate (2 * d) ' ' ++ s = List.replicate (2 * e) ' ' ++ t) : d = e ∧ s = t := by
  have hcount := congrArg (List.count ' ') h
  simp only [List.count_append, List.count_replicate_self, List.count_eq_zero_of_not_mem hs,
    List.count_eq_zero_of_not_mem ht] at hcount
  obtain rfl : d = e := by omega
  exact ⟨rfl, List.append_cancel_left h⟩

theorem Labelled.text_append_inj {l m : DumpLine} (hl : l.Labelled) (hm : m.Labelled)
    {x y : List Char} (h : l.text.toList ++ x = m.text.toList ++ y) : l = m ∧ x = y := by
  obtain ⟨d, _, content⟩ := l
  obtain ⟨e, _, content'⟩ := m
  obtain ⟨⟨s, rfl, hblank, hcolon⟩, hcontent⟩ := hl
  obtain ⟨⟨t, rfl, hblank', hcolon'⟩, hcontent'⟩ := hm
  rw [toList_text_labelled, toList_text_labelled] at h
  have hline : (List.replicate (2 * d) ' ' ++ s.toList)
      ++ ':' :: ' ' :: (content.toList ++ '\n' :: x)
    = (List.replicate (2 * e) ' ' ++ t.toList)
      ++ ':' :: ' ' :: (content'.toList ++ '\n' :: y) := by simpa using h
  -- the first colon ends the label, and the first line break behind it the content
  obtain ⟨hhead, htail⟩ := append_cons_inj (by simp [hcolon]) (by simp [hcolon']) hline
  obtain ⟨rfl, hst⟩ := depth_label_inj hblank hblank' hhead
  obtain ⟨hc, hxy⟩ := append_cons_inj hcontent hcontent' (List.cons.inj htail).2
  obtain rfl := String.toList_injective hst
  obtain rfl : content = content' := String.toList_injective hc
  exact ⟨rfl, hxy⟩

theorem text_ne_nil (l : DumpLine) : l.text.toList ≠ [] := by
  simp [text]

/-- What a row of lines is written as. -/
def written (ls : List DumpLine) : List Char := ls.flatMap fun l => l.text.toList

theorem toList_join_text (ls : List DumpLine) :
    (String.join (ls.map DumpLine.text)).toList = written ls := by
  simp [written, String.toList_join, List.flatMap_map]

theorem written_inj : ∀ {ls ms : List DumpLine}, (∀ l ∈ ls, l.Labelled) → (∀ m ∈ ms, m.Labelled) →
    written ls = written ms → ls = ms
  | [], [], _, _, _ => rfl
  | [], m :: ms, _, _, h => by
    simp [written, m.text_ne_nil] at h
  | l :: ls, [], _, _, h => by
    simp [written, l.text_ne_nil] at h
  | l :: ls, m :: ms, hls, hms, h => by
    simp only [List.forall_mem_cons] at hls hms
    obtain ⟨rfl, hrest⟩ := hls.1.text_append_inj hms.1 h
    rw [written_inj hls.2 hms.2 hrest]

end DumpLine

/-- A first line without a label, and labelled lines below it. -/
structure IsDump (ls : List DumpLine) : Prop where
  lines : ∃ content below, ls = ⟨0, none, content⟩ :: below ∧ '\n' ∉ content.toList
    ∧ ∀ l ∈ below, l.Labelled

theorem IsDump.join_text_inj {ls ms : List DumpLine} (hls : IsDump ls) (hms : IsDump ms)
    (h : String.join (ls.map DumpLine.text) = String.join (ms.map DumpLine.text)) : ls = ms := by
  obtain ⟨content, below, rfl, hcontent, hbelow⟩ := hls
  obtain ⟨content', below', rfl, hcontent', hbelow'⟩ := hms
  have hwritten := congrArg String.toList h
  rw [DumpLine.toList_join_text, DumpLine.toList_join_text] at hwritten
  simp only [DumpLine.written, List.flatMap_cons, DumpLine.toList_text_root, List.append_assoc,
    List.singleton_append] at hwritten
  obtain ⟨hc, hrest⟩ := append_cons_inj hcontent hcontent' hwritten
  rw [String.toList_injective hc, DumpLine.written_inj hbelow hbelow' hrest]

end RegexLiteral
