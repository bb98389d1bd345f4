import RegexLiteral.Proofs.Dump.Quoted

/-!
# Tokens in a dump

What a dump writes of a token tells the token: its category, its text and each of its marks
(`Token.dumpText_inj`). A mark that is not set writes nothing, so the marks are told apart by how
they begin.
-/

namespace RegexLiteral

theorem SpanName.name_append_inj {m n : SpanName} {x y : List Char}
    (h : m.name.toList ++ '\x27' :: x = n.name.toList ++ '\x27' :: y) : m = n ∧ x = y := by
  cases m <;> cases n <;> simp [name] at h ⊢ <;> exact h

theorem Category.name_append_inj {a b : Category} {x y : List Char}
    (h : a.name.toList ++ ' ' :: x = b.name.toList ++ ' ' :: y) : a = b ∧ x = y := by
  cases a <;> cases b <;> simp [name] at h ⊢ <;> exact h

/-- The character that a token is balanced by, and the name of the span between them. -/
def Pairing.written (p : Pairing) : List Char :=
  (" balanced=" ++ Text.dumpQuotedChar p.closer ++ " balancedSpan=\x27" ++ p.span.name
    ++ "\x27").toList

theorem Pairing.prefixCode_written : PrefixCode Pairing.written := by
  intro p q x y h
  simp only [written, Text.dumpQuotedChar, String.toList_append, List.append_assoc] at h
  obtain ⟨hcloser, hspan⟩ := Text.prefixCode_dumpQuoted (List.append_cancel_left h)
  obtain ⟨hname, hxy⟩ := SpanName.name_append_inj (List.append_cancel_left hspan)
  obtain ⟨c, m⟩ := p
  obtain ⟨d, n⟩ := q
  obtain rfl : c = d := by simpa using hcloser
  obtain rfl : m = n := hname
  exact ⟨rfl, hxy⟩

/-- The name of a span that the token opens or closes, behind the word for it. -/
def SpanName.written (word : String) (n : SpanName) : List Char :=
  (word ++ n.name ++ "\x27").toList

theorem SpanName.prefixCode_written (word : String) : PrefixCode (SpanName.written word) := by
  intro m n x y h
  simp only [written, String.toList_append, List.append_assoc] at h
  exact name_append_inj (List.append_cancel_left h)

namespace Token

/-! ## Marks

Each definition writes one mark and those behind it, down to the end of the token.
-/

def closingMarks (t : Token) : List Char :=
  t.closeSpan.toList.flatMap (SpanName.written " closeSpan=\x27") ++ ['>']

def spanMarks (t : Token) : List Char :=
  t.openSpan.toList.flatMap (SpanName.written " openSpan=\x27") ++ t.closingMarks

def balancerMarks (t : Token) : List Char :=
  (if t.isBalancer then " balancer".toList else []) ++ t.spanMarks

theorem toList_dumpMarks (t : Token) : t.dumpMarks.toList ++ ['>']
    = t.pairing.toList.flatMap Pairing.written ++ t.balancerMarks := by
  unfold dumpMarks balancerMarks spanMarks closingMarks
  cases t.pairing <;> cases t.isBalancer <;> cases t.openSpan <;> cases t.closeSpan <;>
    simp [Pairing.written, SpanName.written]

theorem closingMarks_inj {t u : Token} (h : t.closingMarks = u.closingMarks) :
    t.closeSpan = u.closeSpan := by
  have hend (n : SpanName) (w : List Char) : ['>'] ≠ n.written " closeSpan=\x27" ++ w := by
    simp [SpanName.written]
  exact ((SpanName.prefixCode_written _).optional_append_inj hend hend h).1

theorem spanMarks_inj {t u : Token} (h : t.spanMarks = u.spanMarks) :
    t.openSpan = u.openSpan ∧ t.closeSpan = u.closeSpan := by
  have hend (v : Token) (n : SpanName) (w : List Char) :
      v.closingMarks ≠ n.written " openSpan=\x27" ++ w := by
    unfold closingMarks
    cases v.closeSpan <;> simp [SpanName.written]
  obtain ⟨hopen, hclosing⟩ :=
    (SpanName.prefixCode_written _).optional_append_inj (hend t) (hend u) h
  exact ⟨hopen, closingMarks_inj hclosing⟩

theorem balancerMarks_inj {t u : Token} (h : t.balancerMarks = u.balancerMarks) :
    t.isBalancer = u.isBalancer ∧ t.openSpan = u.openSpan ∧ t.closeSpan = u.closeSpan := by
  have hend (v : Token) (w : List Char) : v.spanMarks ≠ " balancer".toList ++ w := by
    unfold spanMarks closingMarks
    cases v.openSpan <;> cases v.closeSpan <;> simp [SpanName.written]
  unfold balancerMarks at h
  by_cases ht : t.isBalancer <;> by_cases hu : u.isBalancer
  · rw [if_pos ht, if_pos hu] at h
    exact ⟨by rw [ht, hu], spanMarks_inj (List.append_cancel_left h)⟩
  · rw [if_pos ht, if_neg hu] at h
    exact absurd h.symm (hend u _)
  · rw [if_neg ht, if_pos hu] at h
    exact absurd h (hend t _)
  · rw [if_neg ht, if_neg hu] at h
    exact ⟨by rw [Bool.eq_false_of_not_eq_true ht, Bool.eq_false_of_not_eq_true hu],
      spanMarks_inj h⟩

theorem dumpMarks_inj {t u : Token}
    (h : t.dumpMarks.toList ++ ['>'] = u.dumpMarks.toList ++ ['>']) :
    t.pairing = u.pairing ∧ t.isBalancer = u.isBalancer ∧ t.openSpan = u.openSpan
      ∧ t.closeSpan = u.closeSpan := by
  have hend (v : Token) (p : Pairing) (w : List Char) : v.balancerMarks ≠ p.written ++ w := by
    unfold balancerMarks spanMarks closingMarks
    cases v.isBalancer <;> cases v.openSpan <;> cases v.closeSpan <;>
      simp [Pairing.written, SpanName.written]
  rw [toList_dumpMarks, toList_dumpMarks] at h
  obtain ⟨hpairing, hmarks⟩ :=
    Pairing.prefixCode_written.optional_append_inj (hend t) (hend u) h
  exact ⟨hpairing, balancerMarks_inj hmarks⟩

theorem toList_dumpText (t : Token) : t.dumpText.toList = '<' :: (t.category.name.toList
    ++ ' ' :: ((Text.dumpQuoted t.text).toList ++ (t.dumpMarks.toList ++ ['>']))) := by
  simp [dumpText]

theorem newline_not_mem_dumpText (t : Token) : '\n' ∉ t.dumpText.toList := by
  have hquoted := Text.newline_not_mem_dumpQuoted
  have hname (n : SpanName) : '\n' ∉ n.name.toList := by cases n <;> simp [SpanName.name]
  have hcategory : '\n' ∉ t.category.name.toList := by
    cases t.category <;> simp [Category.name]
  have hmarks : '\n' ∉ t.dumpMarks.toList ++ ['>'] := by
    rw [toList_dumpMarks]
    unfold balancerMarks spanMarks closingMarks
    cases t.pairing <;> cases t.isBalancer <;> cases t.openSpan <;> cases t.closeSpan <;>
      simp [Pairing.written, SpanName.written, Text.dumpQuotedChar, hquoted, hname]
  simp only [toList_dumpText, List.mem_cons, List.mem_append] at hmarks ⊢
  simpa [hcategory, hquoted] using hmarks

theorem dumpText_inj {t u : Token} (h : t.dumpText = u.dumpText) : t = u := by
  have hlist := congrArg String.toList h
  rw [toList_dumpText, toList_dumpText] at hlist
  obtain ⟨hcategory, htail⟩ := Category.name_append_inj (List.cons.inj hlist).2
  obtain ⟨htext, hmarks⟩ := Text.prefixCode_dumpQuoted htail
  obtain ⟨hpairing, hbalancer, hopen, hclose⟩ := dumpMarks_inj hmarks
  cases t
  cases u
  simp_all

end Token

end RegexLiteral
