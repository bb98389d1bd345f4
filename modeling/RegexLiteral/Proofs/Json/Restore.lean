import RegexLiteral.Json.Decode
import RegexLiteral.Json.Encode
import RegexLiteral.Proofs.Sound

/-!
# Reading what was written

What is written from a built value reads as that value if each of its literals is one character, and
is refused for such a literal otherwise (`Restores`). Nothing else can go wrong, since every other
rule holds of a built value; so a row of members is followed one by one (`Restores.field`).
-/

namespace RegexLiteral

open Json

/-- Members that are read one by one are read up to the first that cannot be read. -/
theorem Json.Fields.run_note {α β : Type} (key : String) (r : Decoded (Option α))
    (f : Option α → Fields (Decoded β)) :
    (Fields.note key r >>= f).run = r >>= fun o => (f o).run := by
  cases r <;> rfl

/-- Reading gives `a` if `valid` holds. If not, it stops at a character that breaks its rule. -/
structure Restores {α : Type} (r : Decoded α) (a : α) (valid : Prop) : Prop where
  reads : valid → r = .ok a
  refuses : ¬ valid → ∃ cause, r = .error (.invalid cause) ∧ cause.owner = .character

namespace Restores

variable {α β : Type} {r : Decoded α} {a : α} {b : β} {p q : Prop}

theorem ok (a : α) : Restores (.ok a) a True := ⟨fun _ => rfl, fun h => absurd trivial h⟩

theorem of_eq (h : r = .ok a) : Restores r a True := h ▸ ok a

theorem congr (h : Restores r a p) (hpq : p ↔ q) : Restores r a q :=
  ⟨fun hq => h.reads (hpq.2 hq), fun hq => h.refuses fun hp => hq (hpq.1 hp)⟩

theorem bind {f : α → Decoded β} (h : Restores r a p) (h' : Restores (f a) b q) :
    Restores (r >>= f) b (p ∧ q) := by
  by_cases hp : p
  · rw [h.reads hp]
    exact h'.congr (iff_and_self.2 fun _ => hp)
  · obtain ⟨cause, hr, howner⟩ := h.refuses hp
    rw [hr]
    exact ⟨fun hpq => absurd hpq.1 hp, fun _ => ⟨cause, rfl, howner⟩⟩

theorem eq_ok (h : Restores r a True) : r = .ok a := h.reads trivial

/-- A step that cannot fail. -/
theorem step {f : α → Decoded β} (h : r = .ok a) (h' : Restores (f a) b q) :
    Restores (r >>= f) b q := by
  rw [h]
  exact h'

section Structures

variable {o : Option α} {r : Decoded (Option α)} {key : String} {f : Option α → Fields (Decoded β)}

/-- What is written as an object has its members read one by one. -/
theorem struct {names : List String} {members : List (String × Json)}
    {fields : List (String × Json) → Fields (Decoded β)} (h : Restores (fields members).run b q) :
    Restores (readStruct names fields (.object members)) b q := h

theorem field (h : Restores r o p) (h' : Restores (f o).run b q) :
    Restores (Fields.note key r >>= f).run b (p ∧ q) := by
  rw [Fields.run_note]
  exact h.bind h'

/-- A field that can be read. -/
theorem fieldStep (h : r = .ok o) (h' : Restores (f o).run b q) :
    Restores (Fields.note key r >>= f).run b q := by
  rw [Fields.run_note]
  exact step h h'

end Structures

theorem map (f : α → β) (h : Restores r a p) : Restores (f <$> r) (f a) p :=
  ⟨fun hp => by rw [h.reads hp]; rfl, fun hp => by
    obtain ⟨cause, hr, howner⟩ := h.refuses hp
    exact ⟨cause, by rw [hr]; rfl, howner⟩⟩

variable {members : List (String × Json)} {key : String} {j : Json} {read : Json → Decoded α}

theorem member (hj : member? members key = some j) (h : Restores (read j) a p) :
    Restores (readMember members key read) (some a) p := by
  rw [readMember, hj]
  exact h.map some

theorem list {write : α → Json} {p : α → Prop} {as : List α}
    (h : ∀ a ∈ as, Restores (read (write a)) a (p a)) :
    Restores (readList read (.ofList write as)) as (∀ a ∈ as, p a) := by
  change Restores (readAll read (as.map write)) as _
  induction as with
  | nil => exact (ok []).congr (by simp)
  | cons a as ih =>
    rw [List.forall_mem_cons] at h
    have hrest : Restores (readAll read (as.map write) >>= fun as => .ok (a :: as)) (a :: as)
        ((∀ a ∈ as, p a) ∧ True) := (ih h.2).bind (ok (a :: as))
    exact (h.1.bind hrest).congr (by simp)

end Restores

/-! ## Members -/

namespace Json

variable {α : Type} {members : List (String × Json)} {key other : String}
  {read : Json → Decoded α} {write : α → Json} {j : Json} {a : α}

theorem readMember_eq_ok (hj : member? members key = some j) (h : read j = .ok a) :
    readMember members key read = .ok (some a) := by
  rw [readMember, hj]
  change some <$> read j = _
  rw [h]
  rfl

theorem member?_optionalMember_of_ne (h : key ≠ other) (o : Option Json) :
    member? (optionalMember other o ++ members) key = member? members key := by
  cases o with
  | none => rfl
  | some j => simp [optionalMember, member?, List.lookup_cons, beq_eq_false_iff_ne.2 h]

theorem member?_nil : member? [] key = none := rfl

theorem member?_cons_self : member? ((key, j) :: members) key = some j := by
  simp [member?]

theorem member?_cons_of_ne (h : key ≠ other) :
    member? ((other, j) :: members) key = member? members key :=
  member?_optionalMember_of_ne h (some j)

theorem member?_optionalMember (h : member? members key = none) (o : Option Json) :
    member? (optionalMember key o ++ members) key = o := by
  cases o with
  | none => exact h
  | some j => simp [optionalMember, member?]

theorem readMember_map {β : Type} {read : Json → Decoded β} {f : α → β} {o : Option α}
    (hmember : member? members key = o.map write) (h : ∀ a ∈ o, read (write a) = .ok (f a)) :
    readMember members key read = .ok (o.map f) := by
  rw [readMember, hmember]
  cases o with
  | none => rfl
  | some a =>
    change some <$> read (write a) = _
    rw [h a rfl]
    rfl

theorem readList_ofList {as : List α} (h : ∀ a ∈ as, read (write a) = .ok a) :
    readList read (.ofList write as) = .ok as :=
  (Restores.list fun a ha => .of_eq (h a ha)).reads fun _ _ => trivial

theorem readNullable_of_ne (h : j ≠ .null) : readNullable read j = some <$> read j := by
  unfold readNullable
  split
  · exact absurd rfl h
  · rfl

theorem readNullable_ofOption {o : Option α} (h : ∀ a ∈ o, read (write a) = .ok a)
    (hnull : ∀ a, write a ≠ .null) : readNullable read (.ofOption write o) = .ok o := by
  cases o with
  | none => rfl
  | some a =>
    change readNullable read (write a) = _
    rw [readNullable_of_ne (hnull a), h a rfl]
    rfl

theorem ofChecked_eq_ok {r : Except InvalidNode α} (h : r = .ok a) :
    Decoded.ofChecked r = .ok a := by
  rw [h]
  rfl

theorem readNullable_readChar (c : Char) : readNullable readChar (ofChar c) = .ok (some c) := by
  change some <$> readChar (ofChar c) = _
  simp [readChar, ofChar, Functor.map, Except.map]

theorem readNumber_number {n : Nat} (h : n < Text.numberLimit) : readNumber (.number n) = .ok n :=
  if_pos h

theorem readChar_ofChar (c : Char) : readChar (ofChar c) = .ok c := by
  simp [readChar, ofChar]

end Json

/-! ## Tokens -/

theorem SpanName.ofJson_toJson (s : SpanName) : SpanName.ofJson s.toJson = .ok s := by
  cases s <;> rfl

theorem Category.ofJson_toJson (c : Category) : Category.ofJson c.toJson = .ok c := by
  cases c <;> rfl

theorem SpanName.readNullable_toJson (s : SpanName) :
    readNullable SpanName.ofJson s.toJson = .ok (some s) := by
  cases s <;> rfl

/-- The members that a token is written with. -/
theorem Token.members_toJson (t : Token) : ∃ members, t.toJson = .object members
    ∧ member? members "balanced" = t.pairing.map (fun p => .ofChar p.closer)
    ∧ member? members "balancedSpan" = t.pairing.map (fun p => p.span.toJson)
    ∧ member? members "balancer" = (if t.isBalancer then some (.bool true) else none)
    ∧ member? members "category" = some t.category.toJson
    ∧ member? members "closeSpan" = t.closeSpan.map SpanName.toJson
    ∧ member? members "openSpan" = t.openSpan.map SpanName.toJson
    ∧ member? members "text" = some (.string t.text) := by
  refine ⟨_, rfl, ?_⟩
  simp [member?_optionalMember_of_ne, member?_optionalMember, member?_cons_of_ne,
    member?_cons_self, member?_nil]

theorem Token.ofJson_toJson {t : Token} (h : t.Rules) : Token.ofJson t.toJson = .ok t := by
  obtain ⟨members, hmembers, hbalanced, hspan, hbalancer, hcategory, hclose, hopen, htext⟩ :=
    t.members_toJson
  have hspans {key : String} {o : Option SpanName}
      (hkey : member? members key = o.map SpanName.toJson) :
      readMember members key (readNullable SpanName.ofJson) = .ok (o.map some) :=
    readMember_map hkey fun s _ => s.readNullable_toJson
  have hchars : readMember members "balanced" (readNullable readChar)
      = .ok (t.pairing.map fun p => some p.closer) :=
    readMember_map hbalanced fun p _ => readNullable_readChar p.closer
  have hpaired : readMember members "balancedSpan" (readNullable SpanName.ofJson)
      = .ok (t.pairing.map fun p => some p.span) :=
    readMember_map hspan fun p _ => p.span.readNullable_toJson
  have hflag : readMember members "balancer" readBool
      = .ok (if t.isBalancer then some true else none) := by
    rw [readMember, hbalancer]
    cases t.isBalancer <;> rfl
  have hparts : ofParts t.category t.text = .ok (plain t.category t.text) :=
    ofParts_eq_ok_iff.2 ⟨rfl, h⟩
  have hhalves : pairingOfHalves (t.pairing.map fun p => some p.closer).join
      (t.pairing.map fun p => some p.span).join = .ok t.pairing := by
    cases t.pairing <;> rfl
  have hjoin (o : Option SpanName) : (o.map some).join = o := by
    cases o <;> rfl
  have hset : (if t.isBalancer then some true else none).getD false = t.isBalancer := by
    cases t.isBalancer <;> rfl
  rw [hmembers]
  refine Restores.eq_ok (.struct (.fieldStep hchars (.fieldStep hpaired (.fieldStep hflag ?_))))
  refine .fieldStep (readMember_eq_ok hcategory t.category.ofJson_toJson) ?_
  refine .fieldStep (hspans hclose) (.fieldStep (hspans hopen) ?_)
  refine .fieldStep (readMember_eq_ok htext (rfl : readString (.string t.text) = .ok t.text)) ?_
  refine .of_eq (ofChecked_eq_ok ?_)
  simp only [hparts, hhalves, hjoin, hset, Bind.bind, Except.bind]
  rfl

/-! ## Nodes -/

theorem EscapeSequence.ofJson_toJson {e : EscapeSequence} (h : e.Built) :
    EscapeSequence.ofJson e.toJson = .ok e := by
  refine Restores.eq_ok (.struct ?_)
  refine .fieldStep (readMember_eq_ok rfl (Token.ofJson_toJson h.code)) ?_
  refine .fieldStep (readMember_eq_ok rfl (readChar_ofChar e.cooked)) ?_
  refine .fieldStep (readMember_eq_ok rfl (Token.ofJson_toJson h.escape)) ?_
  exact .of_eq (ofChecked_eq_ok (ofParts_eq_ok_iff.2 ⟨rfl, h.rules⟩))

/-- A literal character is the one thing that may be refused. -/
theorem Character.restores {c : Character} (h : c.Built) :
    Restores (Character.ofJson c.toJson) c c.Rules := by
  cases c with
  | literal t =>
    refine .step (Token.ofJson_toJson h) ⟨fun hrules => ?_, fun hrules => ?_⟩
    · exact ofChecked_eq_ok (ofToken_eq_ok_iff.2 ⟨rfl, hrules⟩)
    · obtain ⟨cause, hcheck, howner⟩ := exists_of_not_rules hrules
      refine ⟨cause, ?_, howner⟩
      rw [ofToken, hcheck]
      rfl
  | escaped e => exact (Restores.of_eq (EscapeSequence.ofJson_toJson h)).map _

theorem WordCharacterSet.ofJson_toJson {s : WordCharacterSet} (h : s.Built) :
    WordCharacterSet.ofJson s.toJson = .ok s := by
  refine Restores.eq_ok (.struct ?_)
  refine .fieldStep (readMember_eq_ok rfl (Token.ofJson_toJson h.escapeToken)) ?_
  refine .fieldStep (readMember_eq_ok rfl (Token.ofJson_toJson h.value)) ?_
  exact .of_eq (ofChecked_eq_ok (ofParts_eq_ok_iff.2 ⟨rfl, h.rules⟩))

theorem Gap.ofJson_toJson {g : Gap} (h : g.Built) : Gap.ofJson g.toJson = .ok g := by
  refine Restores.eq_ok (.struct ?_)
  refine .fieldStep (readMember_eq_ok rfl (Token.ofJson_toJson h.escapeToken)) ?_
  refine .fieldStep (readMember_eq_ok rfl (Token.ofJson_toJson h.value)) ?_
  exact .of_eq (ofChecked_eq_ok (ofParts_eq_ok_iff.2 ⟨rfl, h.rules⟩))

theorem CharacterClassRange.restores {r : CharacterClassRange} (h : r.Built) :
    Restores (CharacterClassRange.ofJson r.toJson) r (Character.AllKeep r.characters) := by
  have hboth : Restores (CharacterClassRange.ofJson r.toJson) r
      (r.max.Rules ∧ r.min.Rules ∧ True) := by
    refine .struct (.field (.member rfl (Character.restores h.max)) ?_)
    refine .field (.member rfl (Character.restores h.min)) ?_
    refine .fieldStep (readMember_eq_ok rfl (Token.ofJson_toJson h.sigilToken)) ?_
    exact .of_eq (ofChecked_eq_ok (ofParts_eq_ok_iff.2 ⟨rfl, h.rules⟩))
  exact hboth.congr (by simp [Character.AllKeep, characters, and_comm])

theorem ClassElement.restores {e : ClassElement} (h : e.Built) :
    Restores (ClassElement.ofJson e.toJson) e (Character.AllKeep e.characters) := by
  cases e with
  | character c =>
    exact ((Character.restores h).map _).congr (by simp [Character.AllKeep, characters])
  | range r => exact (CharacterClassRange.restores h).map _
  | wordCharacterSet s =>
    exact ((Restores.of_eq (WordCharacterSet.ofJson_toJson h)).map _).congr
      (by simp [Character.AllKeep, characters])

theorem Token.ofJson_nullable {o : Option Token} (h : ∀ t ∈ o, t.Rules) :
    readNullable Token.ofJson (.ofOption Token.toJson o) = .ok o :=
  readNullable_ofOption (fun t ht => Token.ofJson_toJson (h t ht)) fun _ => nofun

theorem CharacterClass.restores {c : CharacterClass} (h : c.Built) :
    Restores (CharacterClass.ofJson c.toJson) c (Character.AllKeep c.characters) := by
  have hall : Restores (CharacterClass.ofJson c.toJson) c
      ((∀ e ∈ c.elements, Character.AllKeep e.characters) ∧ True) := by
    refine .struct (.fieldStep (readMember_eq_ok rfl (Token.ofJson_toJson h.closeToken)) ?_)
    refine .field (.member rfl (.list fun e he => ClassElement.restores (h.elements e he))) ?_
    refine .fieldStep (readMember_eq_ok rfl (Token.ofJson_nullable h.negateToken)) ?_
    refine .fieldStep (readMember_eq_ok rfl (Token.ofJson_toJson h.openToken)) ?_
    exact .of_eq (ofChecked_eq_ok (ofParts_eq_ok_iff.2 ⟨rfl, h.rules⟩))
  exact hall.congr (by rw [and_true, characters, Character.allKeep_flatMap])

theorem Bound.ofJson_toJson {b : Bound} (h : ∀ n, b = .finite n → n < Text.numberLimit) :
    Bound.ofJson b.toJson = .ok b := by
  cases b with
  | finite n =>
    change Bound.finite <$> readNumber (.number n) = _
    rw [readNumber_number (h n rfl)]
    rfl
  | infinite => rfl

theorem Braces.ofJson_toJson {b : Braces} (h : b.Built) : Braces.ofJson b.toJson = .ok b := by
  refine Restores.eq_ok (.struct ?_)
  refine .fieldStep (readMember_eq_ok rfl (Token.ofJson_toJson h.closeToken)) ?_
  refine .fieldStep (readMember_eq_ok rfl (Token.ofJson_nullable h.maxToken)) ?_
  refine .fieldStep (readMember_eq_ok rfl (Token.ofJson_toJson h.minToken)) ?_
  refine .fieldStep (readMember_eq_ok rfl (Token.ofJson_toJson h.openToken)) ?_
  refine .fieldStep (readMember_eq_ok rfl (Token.ofJson_nullable h.separatorToken)) ?_
  exact .of_eq (ofChecked_eq_ok (ofParts_eq_ok_iff.2 ⟨rfl, h.rules⟩))

theorem Sigil.ofJson_toJson {s : Sigil} (h : s.Built) : Sigil.ofJson s.toJson = .ok s := by
  cases s with
  | token t => exact ((Restores.of_eq (Token.ofJson_toJson h)).map _).eq_ok
  | braces b => exact ((Restores.of_eq (Braces.ofJson_toJson h)).map _).eq_ok

theorem Element.ofJson_eq (j : Json) : Element.ofJson j =
    match j.variant? with
    | some ("Character", some content) => (.atom <| .character ·) <$> Character.ofJson content
    | some ("CharacterClass", some content) =>
      (.atom <| .characterClass ·) <$> CharacterClass.ofJson content
    | some ("WordCharacterSet", some content) =>
      (.atom <| .wordCharacterSet ·) <$> WordCharacterSet.ofJson content
    | some ("Gap", some content) => (.atom <| .gap ·) <$> Gap.ofJson content
    | some ("Quantifier", some content) => .quantifier <$> Quantifier.ofJson content
    | _ => .error .shape := by
  rw [Element.ofJson]
  split
  case h_5 content h =>
    rw [h]
    refine congrArg (fun r => Element.quantifier <$> Quantifier.ofElement r content) ?_
    split
    · rename_i he
      rw [he]
      rfl
    · rename_i he
      rw [he]
      rfl
  case h_6 => split <;> simp_all
  all_goals
    rename_i content h
    rw [h]
    rfl

theorem Atom.restores {a : Atom} (h : a.Built) :
    Restores (Element.ofJson a.toJson) (.atom a) (Character.AllKeep a.characters) := by
  cases a with
  | character c =>
    rw [Element.ofJson_eq]
    exact ((Character.restores h).map _).congr (by simp [Character.AllKeep, characters])
  | characterClass c =>
    rw [Element.ofJson_eq]
    exact (CharacterClass.restores h).map _
  | wordCharacterSet s =>
    rw [Element.ofJson_eq]
    exact ((Restores.of_eq (WordCharacterSet.ofJson_toJson h)).map _).congr
      (by simp [Character.AllKeep, characters])
  | gap g =>
    rw [Element.ofJson_eq]
    exact ((Restores.of_eq (Gap.ofJson_toJson h)).map _).congr
      (by simp [Character.AllKeep, characters])

theorem Quantifier.restores {q : Quantifier} (h : q.Built) :
    Restores (Quantifier.ofJson q.toJson) q (Character.AllKeep q.characters) := by
  obtain ⟨hmin, hmax⟩ := Sigil.lt_of_bounds? h.rules.spelt
  have helement : Restores (readOption Element.ofJson (q.toJson.field? fieldNames "element"))
      (some (.atom q.atom)) (Character.AllKeep q.atom.characters) :=
    (Atom.restores h.atom).map some
  have hatom : Restores (Quantifier.ofJson q.toJson) q
      (Character.AllKeep q.atom.characters ∧ True) := by
    rw [Quantifier.ofJson, ofElement]
    refine .struct (.field helement ?_)
    refine .fieldStep (readMember_eq_ok rfl (Bound.ofJson_toJson hmax)) ?_
    refine .fieldStep (readMember_eq_ok rfl (readNumber_number hmin)) ?_
    refine .fieldStep (readMember_eq_ok rfl (Sigil.ofJson_toJson h.sigil)) ?_
    exact .of_eq (ofChecked_eq_ok (ofParts_eq_ok_iff.2 ⟨_, rfl, rfl, h.rules⟩))
  exact hatom.congr (by simp [characters])

theorem Element.restores {e : Element} (h : e.Built) :
    Restores (Element.ofJson e.toJson) e (Character.AllKeep e.characters) := by
  cases e with
  | atom a => exact Atom.restores h
  | quantifier q =>
    rw [Element.ofJson_eq]
    exact (Quantifier.restores h).map _

theorem Alternative.restores {a : Alternative} (h : a.Built) :
    Restores (Alternative.ofJson a.toJson) a (Character.AllKeep a.characters) := by
  have hall : Restores (Alternative.ofJson a.toJson) a
      ((∀ e ∈ a.elements, Character.AllKeep e.characters) ∧ True) := by
    refine .struct (.field (.member rfl (.list fun e he => Element.restores (h e he))) ?_)
    exact .ok a
  exact hall.congr (by rw [and_true, characters, Character.allKeep_flatMap])

theorem Flags.ofJson_toJson {f : Flags} (h : f.Built) : Flags.ofJson f.toJson = .ok f := by
  have htokens : readList Token.ofJson (.ofList Token.toJson f.tokens) = .ok f.tokens :=
    readList_ofList fun t ht => Token.ofJson_toJson (h.tokens t ht)
  refine Restores.eq_ok (.struct (.fieldStep rfl (.fieldStep rfl (.fieldStep rfl ?_))))
  refine .fieldStep rfl (.fieldStep rfl (.fieldStep (readMember_eq_ok rfl htokens) ?_))
  refine .fieldStep rfl ?_
  exact .of_eq (ofChecked_eq_ok ((checked_eq_ok_iff check_eq_ok_iff).2 ⟨rfl, h.rules⟩))

theorem Pattern.restores {p : Pattern} (h : p.Built) :
    Restores (Pattern.ofJson p.toJson) p (Character.AllKeep p.characters) := by
  have hall : Restores (Pattern.ofJson p.toJson) p
      ((∀ a ∈ p.alternatives, Character.AllKeep a.characters) ∧ True) := by
    refine .struct (.field
      (.member rfl (.list fun a ha => Alternative.restores (h.alternatives a ha))) ?_)
    refine .fieldStep (readMember_eq_ok rfl (Token.ofJson_toJson h.closeToken)) ?_
    refine .fieldStep (readMember_eq_ok rfl (Flags.ofJson_toJson h.flags)) ?_
    refine .fieldStep (readMember_eq_ok rfl (Token.ofJson_toJson h.openToken)) ?_
    refine .fieldStep (readMember_eq_ok rfl (readList_ofList fun t ht =>
      Token.ofJson_toJson (h.separatorTokens t ht))) ?_
    exact .of_eq (ofChecked_eq_ok (ofParts_eq_ok_iff.2 ⟨rfl, rfl, rfl, rfl, rfl, h.rules⟩))
  exact hall.congr (by rw [and_true, characters, Character.allKeep_flatMap])

theorem Node.restores {n : Node} (h : n.Built) :
    Restores (Node.ofJson n.toJson) n (Character.AllKeep n.characters) := by
  cases n with
  | pattern p => exact (Pattern.restores h).map _
  | alternative a => exact (Alternative.restores h).map _
  | character c =>
    exact ((Character.restores h).map _).congr (by simp [Character.AllKeep, characters])
  | characterClass c => exact (CharacterClass.restores h).map _
  | characterClassRange r => exact (CharacterClassRange.restores h).map _
  | quantifier q => exact (Quantifier.restores h).map _
  | flags f =>
    exact ((Restores.of_eq (Flags.ofJson_toJson h)).map _).congr
      (by simp [Character.AllKeep, characters])
  | escapeSequence e =>
    exact ((Restores.of_eq (EscapeSequence.ofJson_toJson h)).map _).congr
      (by simp [Character.AllKeep, characters])
  | wordCharacterSet s =>
    exact ((Restores.of_eq (WordCharacterSet.ofJson_toJson h)).map _).congr
      (by simp [Character.AllKeep, characters])
  | gap g =>
    exact ((Restores.of_eq (Gap.ofJson_toJson h)).map _).congr
      (by simp [Character.AllKeep, characters])

end RegexLiteral
