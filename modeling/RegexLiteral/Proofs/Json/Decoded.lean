import RegexLiteral.Proofs.Json.RoundTrip

/-!
# What is read is sound

Whatever the reader of a type gives keeps the rules of the type, and so does all that is in it,
since each part was read in the same way and held against its own rules (`Gives`). So a value that
was read has a character wherever it has a `Character`, and it can be written and read again
(`reads_faithfully`).
-/

namespace RegexLiteral

open Json

/-! ## Structures -/

section Structures

variable {α : Type} {names : List String} {fields : List (String × Json) → Fields (Decoded α)}
  {j : Json} {a : α}

/-- The members that a value has as a structure with the fields `names`: those of an object, or the
items of an array under the first names. -/
inductive Json.HasMembers (names : List String) : Json → List (String × Json) → Prop
  | object (members : List (String × Json)) : HasMembers names (.object members) members
  | array (items : List Json) (fits : items.length ≤ names.length) :
    HasMembers names (.array items) (names.zip items)

theorem Json.HasMembers.field?_eq {members : List (String × Json)} (h : HasMembers names j members)
    (key : String) : j.field? names key = member? members key := by
  cases h <;> rfl

theorem Json.Fields.run_eq_ok_iff {faults : List (String × DecodeError)} {value : Decoded α} :
    (Fields.mk faults value).run = .ok a ↔ faults = [] ∧ value = .ok a := by
  cases faults <;> simp [Fields.run]

theorem Json.Fields.run_field_eq_ok_iff {β : Type} {key : String} {r : Decoded (Option β)}
    {f : Option β → Fields (Decoded α)} :
    (Fields.note key r >>= f).run = .ok a ↔ ∃ o, r = .ok o ∧ (f o).run = .ok a := by
  rw [run_note, bind_eq_ok_iff]

/-- A structure is read if each of its members is. In which order they are read does not matter
then. -/
theorem readStruct_eq_ok_iff : readStruct names fields j = .ok a
    ↔ ∃ members, HasMembers names j members ∧ (fields members).run = .ok a := by
  constructor
  · intro h
    cases j with
    | object members => exact ⟨members, .object members, h⟩
    | array items =>
      obtain ⟨hfaults, hvalue⟩ := Fields.run_eq_ok_iff.1 h
      have hnone : (fields (names.zip items)).faults = [] := by
        rw [← List.perm_nil, ← hfaults]
        exact (List.mergeSort_perm _ _).symm
      by_cases hfits : items.length ≤ names.length
      · rw [if_pos hfits] at hvalue
        exact ⟨_, .array items hfits, Fields.run_eq_ok_iff.2 ⟨hnone, hvalue⟩⟩
      · simp [hfits] at hvalue
    | _ => cases h
  · rintro ⟨members, hmembers, h⟩
    cases hmembers with
    | object => exact h
    | array items hfits =>
      obtain ⟨hfaults, hvalue⟩ := Fields.run_eq_ok_iff.1 h
      exact Fields.run_eq_ok_iff.2 ⟨by rw [hfaults, List.mergeSort_nil], by rwa [if_pos hfits]⟩

end Structures

/-- If reading gives a value, this has `post`. -/
def Gives {α : Type} (r : Decoded α) (post : α → Prop) : Prop := ∀ a, r = .ok a → post a

namespace Gives

variable {α β : Type} {r : Decoded α} {mid post : α → Prop} {post' : β → Prop} {f : α → Decoded β}

theorem ok {a : α} (h : post a) : Gives (.ok a) post := fun _ ha => Except.ok.inj ha ▸ h

theorem error {e : DecodeError} : Gives (.error e) post := nofun

theorem any : Gives r fun _ => True := fun _ _ => trivial

theorem mono (h : Gives r mid) (hm : ∀ a, mid a → post a) : Gives r post :=
  fun a ha => hm a (h a ha)

/-- A step whose outcome is kept. -/
theorem seq (h : ∀ a, r = .ok a → Gives (f a) post') : Gives (r >>= f) post' := by
  cases r with
  | ok a => exact h a rfl
  | error e => exact error

theorem bind (h : Gives r mid) (h' : ∀ a, mid a → Gives (f a) post') : Gives (r >>= f) post' :=
  seq fun a ha => h' a (h a ha)

theorem map {g : α → β} (h : Gives r fun a => post' (g a)) : Gives (g <$> r) post' := by
  cases r with
  | ok a => exact ok (h a rfl)
  | error e => exact error

theorem ofChecked {r : Except InvalidNode α} (h : ∀ a, r = .ok a → post a) :
    Gives (.ofChecked r) post := by
  cases r with
  | ok a => exact ok (h a rfl)
  | error cause => exact error

theorem ofOption {o : Option α} (h : ∀ a ∈ o, post a) : Gives (.ofOption o) post := by
  cases o with
  | none => exact error
  | some a => exact ok (h a rfl)

section Structures

variable {names : List String} {j : Json} {key : String} {r : Decoded (Option α)}
  {mid : Option α → Prop} {f : Option α → Fields (Decoded β)}
  {fields : List (String × Json) → Fields (Decoded β)}

theorem struct (h : ∀ members, HasMembers names j members → Gives (fields members).run post') :
    Gives (readStruct names fields j) post' := by
  intro b hb
  obtain ⟨members, hmembers, hrun⟩ := readStruct_eq_ok_iff.1 hb
  exact h members hmembers b hrun

/-- A field whose outcome is kept. -/
theorem fieldSeq (h : ∀ o, r = .ok o → Gives (f o).run post') :
    Gives (Fields.note key r >>= f).run post' := by
  rw [Fields.run_note]
  exact seq h

theorem field (h : Gives r mid) (h' : ∀ o, mid o → Gives (f o).run post') :
    Gives (Fields.note key r >>= f).run post' :=
  fieldSeq fun o ho => h' o (h o ho)

end Structures

variable {read : Json → Decoded α}

/-- A member that is there is read as any value of its type. -/
theorem member (h : ∀ j, Gives (read j) post) (o : Option Json) :
    Gives (readOption read o) fun o => ∀ a ∈ o, post a := by
  cases o with
  | none => exact ok fun a ha => absurd ha (Option.not_mem_none a)
  | some j => exact map fun a ha b hb => Option.some.inj hb ▸ h j a ha

theorem nullable (h : ∀ j, Gives (read j) post) (j : Json) :
    Gives (readNullable read j) fun o => ∀ a ∈ o, post a := by
  unfold readNullable
  split
  · exact ok fun a ha => absurd ha (Option.not_mem_none a)
  · exact map fun a ha b hb => Option.some.inj hb ▸ h _ a ha

theorem list (h : ∀ j, Gives (read j) post) (j : Json) :
    Gives (readList read j) fun as => ∀ a ∈ as, post a := by
  unfold readList
  split
  · rename_i items
    induction items with
    | nil => exact ok (List.forall_mem_nil _)
    | cons j js ih =>
      refine bind (h j) fun a ha => bind ih fun as has => ok ?_
      exact List.forall_mem_cons.2 ⟨ha, has⟩
  · exact error

end Gives

theorem forall_mem_join {α : Type} {p : α → Prop} {o : Option (Option α)}
    (h : ∀ a ∈ o, ∀ b ∈ a, p b) : ∀ b ∈ o.join, p b :=
  fun b hb => h (some b) (Option.join_eq_some_iff.1 hb) b rfl

/-! ## Tokens -/

/-- A member that is there, and not `null`. -/
def IsSet (members : List (String × Json)) (key : String) : Prop :=
  ∃ j, member? members key = some j ∧ j ≠ .null

theorem isSome_join_iff {α : Type} {members : List (String × Json)} {key : String}
    {read : Json → Decoded α} {o : Option (Option α)}
    (h : readMember members key (readNullable read) = .ok o) :
    o.join.isSome ↔ IsSet members key := by
  unfold readMember at h
  cases hj : member? members key with
  | none =>
    rw [hj] at h
    cases h
    simp [IsSet, hj]
  | some j =>
    rw [hj] at h
    by_cases hnull : j = .null
    · subst hnull
      cases h
      simp [IsSet, hj]
    · change some <$> readNullable read j = _ at h
      rw [readNullable_of_ne hnull] at h
      cases hr : read j with
      | error e =>
        rw [hr] at h
        cases h
      | ok a =>
        rw [hr] at h
        cases h
        simp [IsSet, hj, hnull]

theorem Token.isSome_of_pairingOfHalves {closer : Option Char} {span : Option SpanName}
    {pairing : Option Pairing} (h : pairingOfHalves closer span = .ok pairing) :
    (closer.isSome ↔ pairing.isSome) ∧ (span.isSome ↔ pairing.isSome) := by
  unfold pairingOfHalves at h
  split at h
  · cases h
    simp
  · cases h
    simp
  · cases h

theorem map_eq_ok_iff {α β : Type} {r : Decoded α} {f : α → β} {b : β} :
    f <$> r = .ok b ↔ ∃ a, r = .ok a ∧ f a = b := by
  cases r <;> simp [Functor.map, Except.map]

theorem ofOption_eq_ok_iff {α : Type} {o : Option α} {a : α} :
    Decoded.ofOption o = .ok a ↔ o = some a := by
  cases o <;> simp [Decoded.ofOption]

/-- The member that a value was read from. -/
theorem exists_of_readMember {α : Type} {members : List (String × Json)} {key : String}
    {read : Json → Decoded α} {a : α} (h : readMember members key read = .ok (some a)) :
    ∃ j, member? members key = some j ∧ read j = .ok a := by
  unfold readMember at h
  cases hj : member? members key with
  | none =>
    rw [hj] at h
    cases h
  | some j =>
    rw [hj] at h
    obtain ⟨b, hb, hab⟩ := map_eq_ok_iff.1 h
    exact ⟨j, rfl, Option.some.inj hab ▸ hb⟩

/-- A token comes from members among which are both halves of its pairing or neither. -/
theorem Token.gives (j : Json) : Gives (Token.ofJson j) fun t => t.Rules
    ∧ ∃ members, HasMembers fieldNames j members
      ∧ (t.pairing.isSome ↔ IsSet members "balanced")
      ∧ (t.pairing.isSome ↔ IsSet members "balancedSpan") := by
  refine .struct fun members hmembers => .fieldSeq fun closer hcloser => ?_
  refine .fieldSeq fun span hspan => .field .any fun balancer _ => .field .any fun category _ => ?_
  refine .field .any fun close _ => .field .any fun opener _ => .field .any fun text _ => ?_
  refine .bind .any fun category _ => .bind .any fun text _ => .ofChecked fun t ht => ?_
  obtain ⟨token, htoken, ht⟩ := bind_eq_ok_iff.1 ht
  obtain ⟨pairing, hpairing, ht⟩ := bind_eq_ok_iff.1 ht
  obtain ⟨rfl, hrules⟩ := ofParts_eq_ok_iff.1 htoken
  obtain ⟨hcloser', hspan'⟩ := isSome_of_pairingOfHalves hpairing
  cases ht
  exact ⟨hrules, members, hmembers, hcloser'.symm.trans (isSome_join_iff hcloser),
    hspan'.symm.trans (isSome_join_iff hspan)⟩

theorem Token.gives_rules (j : Json) : Gives (Token.ofJson j) Token.Rules :=
  (Token.gives j).mono fun _ h => h.1

/-! ## Nodes -/

theorem EscapeSequence.gives (j : Json) : Gives (EscapeSequence.ofJson j) Built := by
  refine .struct fun members _ => .field (.member Token.gives_rules _) fun code hcode => ?_
  refine .field .any fun cooked _ => .field (.member Token.gives_rules _) fun escape hescape => ?_
  refine .bind .any fun cooked _ => .bind (.ofOption hescape) fun escape hescape => ?_
  refine .bind (.ofOption hcode) fun code hcode => .ofChecked fun e he => ?_
  obtain ⟨rfl, hrules⟩ := ofParts_eq_ok_iff.1 he
  exact ⟨hescape, hcode, hrules⟩

theorem Character.gives (j : Json) : Gives (Character.ofJson j) fun c => c.Built ∧ c.Rules := by
  unfold ofJson
  split
  · refine .bind (Token.gives_rules _) fun t ht => .ofChecked fun c hc => ?_
    obtain ⟨rfl, hrules⟩ := ofToken_eq_ok_iff.1 hc
    exact ⟨ht, hrules⟩
  · exact .map fun e he => ⟨EscapeSequence.gives _ e he, trivial⟩
  · exact .error

theorem WordCharacterSet.gives (j : Json) : Gives (WordCharacterSet.ofJson j) Built := by
  refine .struct fun members _ => .field (.member Token.gives_rules _) fun escape hescape => ?_
  refine .field (.member Token.gives_rules _) fun value hvalue => ?_
  refine .bind (.ofOption hescape) fun escape hescape => ?_
  refine .bind (.ofOption hvalue) fun value hvalue => .ofChecked fun s hs => ?_
  obtain ⟨rfl, hrules⟩ := ofParts_eq_ok_iff.1 hs
  exact ⟨hescape, hvalue, hrules⟩

theorem Gap.gives (j : Json) : Gives (Gap.ofJson j) Built := by
  refine .struct fun members _ => .field (.member Token.gives_rules _) fun escape hescape => ?_
  refine .field (.member Token.gives_rules _) fun value hvalue => ?_
  refine .bind (.ofOption hescape) fun escape hescape => ?_
  refine .bind (.ofOption hvalue) fun value hvalue => .ofChecked fun g hg => ?_
  obtain ⟨rfl, hrules⟩ := ofParts_eq_ok_iff.1 hg
  exact ⟨hescape, hvalue, hrules⟩

theorem CharacterClassRange.gives (j : Json) : Gives (CharacterClassRange.ofJson j) fun r =>
    r.Built ∧ Character.AllKeep r.characters := by
  refine .struct fun members _ => .field (.member Character.gives _) fun max hmax => ?_
  refine .field (.member Character.gives _) fun min hmin => ?_
  refine .field (.member Token.gives_rules _) fun sigil hsigil => ?_
  refine .bind (.ofOption hmin) fun min hmin => .bind (.ofOption hsigil) fun sigil hsigil => ?_
  refine .bind (.ofOption hmax) fun max hmax => .ofChecked fun r hr => ?_
  obtain ⟨rfl, hrules⟩ := ofParts_eq_ok_iff.1 hr
  refine ⟨⟨hmin.1, hsigil, hmax.1, hrules⟩, ?_⟩
  simpa [Character.AllKeep, characters] using And.intro hmin.2 hmax.2

theorem ClassElement.gives (j : Json) : Gives (ClassElement.ofJson j) fun e =>
    e.Built ∧ Character.AllKeep e.characters := by
  unfold ofJson
  split
  · refine .map ((Character.gives _).mono fun c hc => ?_)
    exact ⟨hc.1, Character.allKeep_singleton.2 hc.2⟩
  · exact .map (CharacterClassRange.gives _)
  · exact .map ((WordCharacterSet.gives _).mono fun s hs => ⟨hs, Character.allKeep_nil⟩)
  · exact .error

theorem CharacterClass.gives (j : Json) : Gives (CharacterClass.ofJson j) fun c =>
    c.Built ∧ Character.AllKeep c.characters := by
  refine .struct fun members _ => .field (.member Token.gives_rules _) fun close hclose => ?_
  refine .field (.member (.list ClassElement.gives) _) fun elements helements => ?_
  refine .field (.member (.nullable Token.gives_rules) _) fun negate hnegate => ?_
  refine .field (.member Token.gives_rules _) fun opener hopener => ?_
  refine .bind (.ofOption hopener) fun opener hopener => ?_
  refine .bind (.ofOption helements) fun elements helements => ?_
  refine .bind (.ofOption hclose) fun close hclose => .ofChecked fun c hc => ?_
  obtain ⟨rfl, hrules⟩ := ofParts_eq_ok_iff.1 hc
  exact ⟨⟨hopener, forall_mem_join hnegate, fun e he => (helements e he).1, hclose, hrules⟩,
    Character.allKeep_flatMap.2 fun e he => (helements e he).2⟩

theorem Braces.gives (j : Json) : Gives (Braces.ofJson j) Built := by
  refine .struct fun members _ => .field (.member Token.gives_rules _) fun close hclose => ?_
  refine .field (.member (.nullable Token.gives_rules) _) fun max hmax => ?_
  refine .field (.member Token.gives_rules _) fun min hmin => ?_
  refine .field (.member Token.gives_rules _) fun opener hopener => ?_
  refine .field (.member (.nullable Token.gives_rules) _) fun separator hseparator => ?_
  refine .bind (.ofOption hopener) fun opener hopener => ?_
  refine .bind (.ofOption hmin) fun min hmin => ?_
  refine .bind (.ofOption hclose) fun close hclose => .ofChecked fun b hb => ?_
  obtain ⟨rfl, hrules⟩ := ofParts_eq_ok_iff.1 hb
  exact ⟨hopener, hmin, forall_mem_join hseparator, forall_mem_join hmax, hclose, hrules⟩

theorem Sigil.gives (j : Json) : Gives (Sigil.ofJson j) Built := by
  unfold ofJson
  split
  · exact .map (Token.gives_rules _)
  · exact .map (Braces.gives _)
  · exact .error

/-- An element that is no quantifier. What a quantifier holds is looked at only if it is one of
these, so no recursion is needed. -/
theorem Atom.gives (j : Json) : Gives (Element.ofJson j) fun e =>
    ∀ a, e = .atom a → a.Built ∧ Character.AllKeep a.characters := by
  rw [Element.ofJson_eq]
  split
  · refine .map ((Character.gives _).mono fun c hc a ha => ?_)
    obtain rfl := Element.atom.inj ha
    exact ⟨hc.1, Character.allKeep_singleton.2 hc.2⟩
  · refine .map ((CharacterClass.gives _).mono fun c hc a ha => ?_)
    obtain rfl := Element.atom.inj ha
    exact hc
  · refine .map ((WordCharacterSet.gives _).mono fun s hs a ha => ?_)
    obtain rfl := Element.atom.inj ha
    exact ⟨hs, Character.allKeep_nil⟩
  · refine .map ((Gap.gives _).mono fun g hg a ha => ?_)
    obtain rfl := Element.atom.inj ha
    exact ⟨hg, Character.allKeep_nil⟩
  · exact .map fun q _ a ha => nomatch ha
  · exact .error

/-- A quantifier comes from members of which the element is no quantifier. -/
theorem Quantifier.gives (j : Json) : Gives (Quantifier.ofJson j) fun q =>
    (q.Built ∧ Character.AllKeep q.characters) ∧ ∃ members element, HasMembers fieldNames j members
      ∧ member? members "element" = some element ∧ Element.ofJson element = .ok (.atom q.atom) := by
  rw [Quantifier.ofJson, ofElement]
  refine .struct fun members hmembers => .fieldSeq fun element helement => ?_
  rw [hmembers.field?_eq] at helement
  refine .field .any fun max _ => .field .any fun min _ => ?_
  refine .field (.member Sigil.gives _) fun sigil hsigil => .seq fun element hsome => ?_
  refine .bind (.ofOption hsigil) fun sigil hsigil => .bind .any fun min _ => ?_
  refine .bind .any fun max _ => .ofChecked fun q hq => ?_
  obtain ⟨atom, rfl, rfl, hrules⟩ := ofParts_eq_ok_iff.1 hq
  rw [ofOption_eq_ok_iff.1 hsome] at helement
  obtain ⟨content, hcontent, hread⟩ := exists_of_readMember helement
  obtain ⟨hatom, hliterals⟩ := Atom.gives content _ hread atom rfl
  exact ⟨⟨⟨hatom, hsigil, hrules⟩, hliterals⟩, members, content, hmembers, hcontent, hread⟩

theorem Element.exists_of_quantifier {j : Json} {q : Quantifier}
    (h : Element.ofJson j = .ok (.quantifier q)) :
    ∃ content, Quantifier.ofJson content = .ok q := by
  rw [Element.ofJson_eq] at h
  split at h
  case h_5 content _ =>
    obtain ⟨q', hq', hqq'⟩ := map_eq_ok_iff.1 h
    exact ⟨content, Element.quantifier.inj hqq' ▸ hq'⟩
  case h_6 => cases h
  all_goals
    obtain ⟨_, -, hne⟩ := map_eq_ok_iff.1 h
    cases hne

theorem Element.gives (j : Json) : Gives (Element.ofJson j) fun e =>
    e.Built ∧ Character.AllKeep e.characters := by
  intro e he
  cases e with
  | atom a => exact Atom.gives j _ he a rfl
  | quantifier q =>
    obtain ⟨content, hcontent⟩ := exists_of_quantifier he
    exact (Quantifier.gives content q hcontent).1

theorem Alternative.gives (j : Json) : Gives (Alternative.ofJson j) fun a =>
    a.Built ∧ Character.AllKeep a.characters := by
  refine .struct fun members _ => .field (.member (.list Element.gives) _) fun elements hall => ?_
  refine .bind (.ofOption hall) fun elements hall => .ok ?_
  exact ⟨fun e he => (hall e he).1, Character.allKeep_flatMap.2 fun e he => (hall e he).2⟩

theorem Flags.gives (j : Json) : Gives (Flags.ofJson j) Built := by
  refine .struct fun members _ => .field .any fun dotAll _ => .field .any fun global _ => ?_
  refine .field .any fun ignoreCase _ => .field .any fun multiline _ => ?_
  refine .field .any fun sticky _ => ?_
  refine .field (.member (.list Token.gives_rules) _) fun tokens htokens => ?_
  refine .field .any fun unicode _ => .bind .any fun global _ => .bind .any fun ignoreCase _ => ?_
  refine .bind .any fun multiline _ => .bind .any fun dotAll _ => .bind .any fun unicode _ => ?_
  refine .bind .any fun sticky _ => .bind (.ofOption htokens) fun tokens htokens => ?_
  refine .ofChecked fun f hf => ?_
  obtain ⟨rfl, hrules⟩ := (checked_eq_ok_iff check_eq_ok_iff).1 hf
  exact ⟨htokens, hrules⟩

theorem Pattern.gives (j : Json) : Gives (Pattern.ofJson j) fun p =>
    p.Built ∧ Character.AllKeep p.characters := by
  refine .struct fun members _ => ?_
  refine .field (.member (.list Alternative.gives) _) fun alternatives halternatives => ?_
  refine .field (.member Token.gives_rules _) fun close hclose => ?_
  refine .field (.member Flags.gives _) fun flags hflags => ?_
  refine .field (.member Token.gives_rules _) fun opener hopener => ?_
  refine .field (.member (.list Token.gives_rules) _) fun separators hseparators => ?_
  refine .bind (.ofOption hopener) fun opener hopener => ?_
  refine .bind (.ofOption halternatives) fun alternatives halternatives => ?_
  refine .bind (.ofOption hseparators) fun separators hseparators => ?_
  refine .bind (.ofOption hclose) fun close hclose => ?_
  refine .bind (.ofOption hflags) fun flags hflags => .ofChecked fun p hp => ?_
  obtain ⟨rfl, rfl, rfl, rfl, rfl, hrules⟩ := ofParts_eq_ok_iff.1 hp
  exact ⟨⟨hopener, fun a ha => (halternatives a ha).1, hseparators, hclose, hflags, hrules⟩,
    Character.allKeep_flatMap.2 fun a ha => (halternatives a ha).2⟩

theorem Node.gives (j : Json) : Gives (Node.ofJson j) Sound := by
  unfold ofJson
  split
  · exact .map ((Pattern.gives _).mono fun _ h => ⟨h.1, h.2⟩)
  · exact .map ((Alternative.gives _).mono fun _ h => ⟨h.1, h.2⟩)
  · exact .map ((Character.gives _).mono fun _ h => ⟨h.1, Character.allKeep_singleton.2 h.2⟩)
  · exact .map ((CharacterClass.gives _).mono fun _ h => ⟨h.1, h.2⟩)
  · exact .map ((CharacterClassRange.gives _).mono fun _ h => ⟨h.1, h.2⟩)
  · exact .map ((Quantifier.gives _).mono fun _ h => ⟨h.1.1, h.1.2⟩)
  · exact .map ((Flags.gives _).mono fun _ h => ⟨h, Character.allKeep_nil⟩)
  · exact .map ((EscapeSequence.gives _).mono fun _ h => ⟨h, Character.allKeep_nil⟩)
  · exact .map ((WordCharacterSet.gives _).mono fun _ h => ⟨h, Character.allKeep_nil⟩)
  · exact .map ((Gap.gives _).mono fun _ h => ⟨h, Character.allKeep_nil⟩)
  · exact .error

/-! ## All types -/

section Faithful

variable {α : Type} {read : Json → Decoded α} {write : α → Json}
  {check : α → Except InvalidNode Unit} {built : α → Prop} {characters : α → List Character}

/-- What is read is accepted by its constructor, it and all that is in it keep their rules, each
character in it stands for one, and it is read again from its own written form. -/
structure Faithful (read : Json → Decoded α) (write : α → Json)
    (check : α → Except InvalidNode Unit) (built : α → Prop) (characters : α → List Character) :
    Prop where
  accepted : ∀ j x, read j = .ok x → check x = .ok ()
  built : ∀ j x, read j = .ok x → built x
  literals : ∀ j x, read j = .ok x → ∀ c ∈ characters x, c.Rules
  values : ∀ j x, read j = .ok x → ∀ c ∈ characters x, c.value?.isSome
  again : ∀ j x, read j = .ok x → read (write x) = .ok x

theorem faithful_of_gives
    (hcheck : ∀ x, built x → Character.AllKeep (characters x) → check x = .ok ())
    (hgives : ∀ j, Gives (read j) fun x => built x ∧ Character.AllKeep (characters x))
    (hrestores : ∀ {x}, built x → Restores (read (write x)) x (Character.AllKeep (characters x))) :
    Faithful read write check built characters where
  accepted j x h := hcheck x (hgives j x h).1 (hgives j x h).2
  built j x h := (hgives j x h).1
  literals j x h := (hgives j x h).2
  values j x h c hc := ((hgives j x h).2 c hc).isSome_value?
  again j x h := (hrestores (hgives j x h).1).reads (hgives j x h).2

/-- Types that hold no character. -/
theorem faithful_of_gives_built (hcheck : ∀ x, built x → check x = .ok ())
    (hgives : ∀ j, Gives (read j) built) (hagain : ∀ {x}, built x → read (write x) = .ok x) :
    Faithful read write check built fun _ => [] :=
  faithful_of_gives (fun x h _ => hcheck x h)
    (fun j => (hgives j).mono fun _ h => ⟨h, Character.allKeep_nil⟩)
    fun h => (Restores.of_eq (hagain h)).congr (iff_of_true trivial Character.allKeep_nil)

end Faithful

/-- Types that are put together without a check of their own. -/
def unchecked {α : Type} (_ : α) : Except InvalidNode Unit := .ok ()

/-- Every type is read faithfully. A token that is read has both halves of a pairing or neither, as
the object or the array that it comes from; and what a quantifier repeats was read as an element
that is no quantifier. -/
theorem reads_faithfully :
    Faithful Token.ofJson Token.toJson Token.check Token.Rules (fun _ => [])
    ∧ Faithful EscapeSequence.ofJson EscapeSequence.toJson EscapeSequence.check
      EscapeSequence.Built (fun _ => [])
    ∧ Faithful WordCharacterSet.ofJson WordCharacterSet.toJson WordCharacterSet.check
      WordCharacterSet.Built (fun _ => [])
    ∧ Faithful Gap.ofJson Gap.toJson Gap.check Gap.Built (fun _ => [])
    ∧ Faithful Braces.ofJson Braces.toJson Braces.check Braces.Built (fun _ => [])
    ∧ Faithful Flags.ofJson Flags.toJson Flags.check Flags.Built (fun _ => [])
    ∧ Faithful Character.ofJson Character.toJson Character.check Character.Built (fun c => [c])
    ∧ Faithful CharacterClassRange.ofJson CharacterClassRange.toJson CharacterClassRange.check
      CharacterClassRange.Built CharacterClassRange.characters
    ∧ Faithful CharacterClass.ofJson CharacterClass.toJson CharacterClass.check
      CharacterClass.Built CharacterClass.characters
    ∧ Faithful Quantifier.ofJson Quantifier.toJson Quantifier.check Quantifier.Built
      Quantifier.characters
    ∧ Faithful Pattern.ofJson Pattern.toJson Pattern.check Pattern.Built Pattern.characters
    ∧ Faithful ClassElement.ofJson ClassElement.toJson unchecked ClassElement.Built
      ClassElement.characters
    ∧ Faithful Element.ofJson Element.toJson unchecked Element.Built Element.characters
    ∧ Faithful Node.ofJson Node.toJson unchecked Node.Built Node.characters
    ∧ (∀ j t, Token.ofJson j = .ok t → ∃ members, HasMembers Token.fieldNames j members
      ∧ (t.pairing.isSome ↔ IsSet members "balanced")
      ∧ (t.pairing.isSome ↔ IsSet members "balancedSpan"))
    ∧ ∀ j q, Quantifier.ofJson j = .ok q → ∃ members element,
      HasMembers Quantifier.fieldNames j members ∧ member? members "element" = some element
      ∧ Element.ofJson element = .ok (.atom q.atom) := by
  refine ⟨?_, ?_, ?_, ?_, ?_, ?_, ?_, ?_, ?_, ?_, ?_, ?_, ?_, ?_,
    fun j t h => (Token.gives j t h).2, fun j q h => (Quantifier.gives j q h).2⟩
  · exact faithful_of_gives_built (fun _ => Token.check_eq_ok_iff.2) Token.gives_rules
      Token.ofJson_toJson
  · exact faithful_of_gives_built (fun _ h => EscapeSequence.check_eq_ok_iff.2 h.rules)
      EscapeSequence.gives EscapeSequence.ofJson_toJson
  · exact faithful_of_gives_built (fun _ h => WordCharacterSet.check_eq_ok_iff.2 h.rules)
      WordCharacterSet.gives WordCharacterSet.ofJson_toJson
  · exact faithful_of_gives_built (fun _ h => Gap.check_eq_ok_iff.2 h.rules) Gap.gives
      Gap.ofJson_toJson
  · exact faithful_of_gives_built (fun _ h => Braces.check_eq_ok_iff.2 h.rules) Braces.gives
      Braces.ofJson_toJson
  · exact faithful_of_gives_built (fun _ h => Flags.check_eq_ok_iff.2 h.rules) Flags.gives
      Flags.ofJson_toJson
  · refine faithful_of_gives ?_ (fun j => (Character.gives j).mono fun _ h => ?_) fun h => ?_
    · exact fun _ _ h => Character.check_eq_ok_iff.2 (Character.allKeep_singleton.1 h)
    · exact ⟨h.1, Character.allKeep_singleton.2 h.2⟩
    · exact (Character.restores h).congr Character.allKeep_singleton.symm
  · exact faithful_of_gives (fun _ h _ => CharacterClassRange.check_eq_ok_iff.2 h.rules)
      CharacterClassRange.gives CharacterClassRange.restores
  · exact faithful_of_gives (fun _ h _ => CharacterClass.check_eq_ok_iff.2 h.rules)
      CharacterClass.gives CharacterClass.restores
  · exact faithful_of_gives (fun _ h _ => Quantifier.check_eq_ok_iff.2 h.rules)
      (fun j => (Quantifier.gives j).mono fun _ h => h.1) Quantifier.restores
  · exact faithful_of_gives (fun _ h _ => Pattern.check_eq_ok_iff.2 h.rules) Pattern.gives
      Pattern.restores
  · exact faithful_of_gives (fun _ _ _ => rfl) ClassElement.gives ClassElement.restores
  · exact faithful_of_gives (fun _ _ _ => rfl) Element.gives Element.restores
  · exact faithful_of_gives (fun _ _ _ => rfl)
      (fun j => (Node.gives j).mono fun _ h => ⟨h.built, h.literals⟩) Node.restores

theorem reads_faithfully_samples :
    (∃ n, (Template.ofText "/[a-c]x\x7b2,\x7d/g").parse .pattern none = .ok n
      ∧ Node.ofJson n.toJson = .ok n ∧ n.Built ∧ ∀ c ∈ n.characters, c.value?.isSome)
    ∧ (∃ t, Token.ofJson (.object [("text", .string "("), ("line", .number 3),
        ("balanced", .string ")"), ("balancedSpan", .string "Escape"),
        ("category", .string "Keyword")]) = .ok t
      ∧ t.pairing.isSome ∧ Token.ofJson t.toJson = .ok t)
    ∧ ∃ q, Quantifier.ofJson (.array [.variant "Character" (.variant "Literal"
          (.array [.string "Character", .string "a"])),
        .variant "Token" (.array [.string "Keyword", .string "*"]), .number 0,
        .string "Infinite"]) = .ok q
      ∧ q.check = .ok () ∧ Quantifier.ofJson q.toJson = .ok q
      ∧ Element.ofJson (.variant "Character" (.variant "Literal"
          (.array [.string "Character", .string "a"]))) = .ok (.atom q.atom) := by
  obtain ⟨htoken, -, -, -, -, -, -, -, -, hquantifier, -, -, -, hnode, hpairing, hatom⟩ :=
    reads_faithfully
  refine ⟨?_, ?_, ?_⟩
  · obtain ⟨n, hn⟩ : ∃ n, (Template.ofText "/[a-c]x\x7b2,\x7d/g").parse .pattern none = .ok n :=
      exists_of_isOk (by decide +kernel)
    have hread : Node.ofJson n.toJson = .ok n :=
      Node.ofJson_toJson (Template.sound_of_parse (fun _ h => absurd h List.not_mem_nil) hn)
    exact ⟨n, hn, hread, hnode.built _ n hread, hnode.values _ n hread⟩
  · obtain ⟨t, ht⟩ : ∃ t, Token.ofJson (.object [("text", .string "("), ("line", .number 3),
        ("balanced", .string ")"), ("balancedSpan", .string "Escape"),
        ("category", .string "Keyword")]) = .ok t := ⟨_, rfl⟩
    obtain ⟨members, hmembers, hbalanced, -⟩ := hpairing _ t ht
    refine ⟨t, ht, hbalanced.2 ?_, htoken.again _ t ht⟩
    cases hmembers
    exact ⟨.string ")", rfl, nofun⟩
  · obtain ⟨q, hq⟩ : ∃ q, Quantifier.ofJson (.array [.variant "Character" (.variant "Literal"
          (.array [.string "Character", .string "a"])),
        .variant "Token" (.array [.string "Keyword", .string "*"]), .number 0,
        .string "Infinite"]) = .ok q := exists_of_isOk (by decide +kernel)
    obtain ⟨members, element, hmembers, helement, hread⟩ := hatom _ q hq
    refine ⟨q, hq, hquantifier.accepted _ q hq, hquantifier.again _ q hq, ?_⟩
    cases hmembers
    cases helement
    exact hread

end RegexLiteral
