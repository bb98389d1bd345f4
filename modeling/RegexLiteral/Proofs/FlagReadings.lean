import RegexLiteral.Proofs.Json.Decoded
import RegexLiteral.Proofs.Lexing
import RegexLiteral.Proofs.Shift.Alternative

/-!
# Three readings of flags

Flags are read from letters in a source, made of tokens, and decoded from JSON. The three accept the
same: different flag letters (`AreFlagLetters`). While the letters go well, each reading has turned
on the flags of the letters behind it (`FlagSet.ofLetters`), in the reader (`flagTokens_letter`) as
well as in the constructor (`Flags.addAll_letter`), so both stop at the same letter
(`FirstWrong`). What is decoded is held against what its tokens make (`Flags.ofJson_eq_ok_iff`).
-/

namespace RegexLiteral

open Json Written

/-- Different flag letters, in any order. -/
def AreFlagLetters (cs : List Char) : Prop := cs.Nodup ∧ ∀ c ∈ cs, c ∈ "gimsuy".toList

/-- `c` is the first character that is no flag letter or repeats one before it. -/
structure FirstWrong (cs before : List Char) (c : Char) (after : List Char) : Prop where
  split : cs = before ++ c :: after
  letters : AreFlagLetters before
  wrong : c ∉ "gimsuy".toList ∨ c ∈ before

/-- The flags whose letters are among the characters. -/
def FlagSet.ofLetters (cs : List Char) : FlagSet where
  global := Flag.global.letter ∈ cs
  ignoreCase := Flag.ignoreCase.letter ∈ cs
  multiline := Flag.multiline.letter ∈ cs
  dotAll := Flag.dotAll.letter ∈ cs
  unicode := Flag.unicode.letter ∈ cs
  sticky := Flag.sticky.letter ∈ cs

/-- What is wrong with `c` in a source, behind the letters `before`. Line terminators are shown as
far as they go on. -/
def ParseError.ofFlag (before : List Char) (c : Char) (after : List Char) : ParseError :=
  if isLineTerminator c then
    ⟨.lineTerminator, ⟨byteSize before,
      byteSize (before ++ (c :: after).takeWhile isLineTerminator)⟩, []⟩
  else
    ⟨if c ∈ before then .duplicateFlag (.singleton c) else .unknownFlag (.singleton c),
      ⟨byteSize before, byteSize (before ++ [c])⟩, []⟩

/-- What is wrong with a token that reads `c`. -/
def InvalidNode.ofFlag (c : Char) : InvalidNode :=
  match Flag.ofLetter? c with
  | none => .notAFlag (.singleton c)
  | some f => .repeatedFlag f

/-- One token for each letter. -/
def letterTokens (cs : List Char) : List Token := cs.map (.ofChar .keyword)

/-- An object, or an array with the same items in the order of the fields, says of each flag whether
it is on, and lists tokens. -/
def Flags.Claims (j : Json) (set : FlagSet) (tokens : List Token) : Prop :=
  ∃ members items, HasMembers fieldNames j members
    ∧ (∀ flag : Flag, member? members flag.name = some (.bool (set.has flag)))
    ∧ member? members "tokens" = some items ∧ readList Token.ofJson items = .ok tokens

/-! ## Letters -/

section Letters

variable {cs read : List Char} {c : Char}

theorem mem_flagLetters_iff : c ∈ "gimsuy".toList ↔ ∃ f : Flag, f.letter = c := by
  have hall : "gimsuy".toList = Flag.all.map Flag.letter := by decide
  have hmem (f : Flag) : f ∈ Flag.all := by cases f <;> decide
  rw [hall, List.mem_map]
  constructor
  · rintro ⟨f, -, hf⟩
    exact ⟨f, hf⟩
  · rintro ⟨f, hf⟩
    exact ⟨f, hmem f, hf⟩

theorem AreFlagLetters.perm {ds : List Char} (h : AreFlagLetters cs) (hp : cs.Perm ds) :
    AreFlagLetters ds :=
  ⟨hp.nodup_iff.1 h.1, fun c hc => h.2 c (hp.mem_iff.2 hc)⟩

/-- The next letter is a new one. -/
theorem AreFlagLetters.exists_flag (h : AreFlagLetters (read ++ c :: cs)) :
    ∃ f : Flag, f.letter = c ∧ c ∉ read := by
  obtain ⟨f, hf⟩ := mem_flagLetters_iff.1 (h.2 c (by simp))
  exact ⟨f, hf, fun hc => (List.nodup_append.1 h.1).2.2 c hc c List.mem_cons_self rfl⟩

theorem AreFlagLetters.not_isLineTerminator (h : AreFlagLetters cs) :
    ∀ c ∈ cs, ¬ isLineTerminator c := by
  intro c hc
  obtain ⟨f, rfl⟩ := mem_flagLetters_iff.1 (h.2 c hc)
  cases f <;> decide

/-- Characters that are not all different letters go wrong somewhere. -/
theorem exists_firstWrong (read : List Char) (hread : AreFlagLetters read)
    (h : ¬ AreFlagLetters (read ++ cs)) :
    ∃ before c after, FirstWrong (read ++ cs) before c after := by
  induction cs generalizing read with
  | nil => exact absurd (by simpa using hread) h
  | cons c cs ih =>
    by_cases hc : c ∈ "gimsuy".toList ∧ c ∉ read
    · have hnext : AreFlagLetters (read ++ [c]) := by
        refine ⟨List.nodup_append.2 ⟨hread.1, by simp, ?_⟩, ?_⟩
        · intro a ha b hb hab
          rw [hab, List.mem_singleton.1 hb] at ha
          exact hc.2 ha
        · intro d hd
          rcases List.mem_append.1 hd with hd | hd
          · exact hread.2 d hd
          · exact List.mem_singleton.1 hd ▸ hc.1
      rw [List.append_cons read c cs] at h ⊢
      exact ih _ hnext h
    · exact ⟨read, c, cs, rfl, hread, by rwa [Decidable.not_and_iff_not_or_not, not_not] at hc⟩

end Letters

namespace FlagSet

@[simp] theorem has_ofLetters (cs : List Char) (f : Flag) :
    (ofLetters cs).has f = decide (f.letter ∈ cs) := by
  cases f <;> rfl

theorem ofLetters_nil : ofLetters [] = .none := eq_of_has fun f => by simp

theorem insert_ofLetters (cs : List Char) (f : Flag) :
    (ofLetters cs).insert f = ofLetters (cs ++ [f.letter]) := by
  refine eq_of_has fun g => ?_
  have hletter : f = g ↔ g.letter = f.letter :=
    ⟨fun h => h ▸ rfl, fun h => (letter_injective h).symm⟩
  rw [has_insert, Bool.eq_iff_iff, Bool.or_eq_true, beq_iff_eq, hletter]
  simp

theorem ofLetters_perm {cs ds : List Char} (h : cs.Perm ds) : ofLetters cs = ofLetters ds :=
  eq_of_has fun f => by simp [h.mem_iff]

end FlagSet

/-! ## Tokens -/

namespace Flags

variable {read cs after : List Char} {c : Char} {f : Flag} {ts : List Token}

theorem addAll_letter (hf : f.letter ∉ read) :
    addAll (.ofLetters read) (.ofChar .keyword f.letter :: ts)
      = addAll (.ofLetters (read ++ [f.letter])) ts := by
  simp [addAll, Flag.ofLetter?_letter, hf, FlagSet.insert_ofLetters]

theorem addAll_letterTokens (read : List Char) (h : AreFlagLetters (read ++ cs)) :
    addAll (.ofLetters read) (letterTokens cs ++ ts) = addAll (.ofLetters (read ++ cs)) ts := by
  induction cs generalizing read with
  | nil => rw [List.append_nil]; rfl
  | cons c cs ih =>
    obtain ⟨f, rfl, hnew⟩ := h.exists_flag
    rw [List.append_cons read f.letter cs] at h ⊢
    rw [← ih _ h]
    exact addAll_letter hnew

theorem ofTokens_letterTokens (h : AreFlagLetters cs) :
    ofTokens (letterTokens cs) = .ok ⟨.ofLetters cs, letterTokens cs⟩ := by
  have hadd : addAll (.ofLetters []) (letterTokens cs ++ []) = .ok (.ofLetters cs) :=
    addAll_letterTokens [] h
  rw [List.append_nil, FlagSet.ofLetters_nil] at hadd
  rw [ofTokens, hadd]
  rfl

theorem ofTokens_firstWrong {before : List Char} (h : FirstWrong cs before c after) :
    ofTokens (letterTokens cs) = .error (.ofFlag c) := by
  obtain ⟨rfl, hbefore, hwrong⟩ := h
  have hsplit : letterTokens (before ++ c :: after)
      = letterTokens before ++ .ofChar .keyword c :: letterTokens after := by
    simp [letterTokens]
  have hadd : addAll (.ofLetters before) (.ofChar .keyword c :: letterTokens after)
      = .error (.ofFlag c) := by
    simp only [addAll, Token.char?_ofChar, Option.bind_some, InvalidNode.ofFlag]
    cases hf : Flag.ofLetter? c with
    | none => rfl
    | some f =>
      obtain rfl := Flag.letter_of_ofLetter? hf
      have hmem : f.letter ∈ before :=
        hwrong.resolve_left fun hno => hno (mem_flagLetters_iff.2 ⟨f, rfl⟩)
      simp [hmem]
  rw [ofTokens, hsplit, ← FlagSet.ofLetters_nil, addAll_letterTokens [] hbefore,
    List.nil_append, hadd]
  rfl

/-- Flags hold what is made of their tokens if they keep their rules. -/
theorem rules_iff_ofTokens {f : Flags} : f.Rules ↔ ofTokens f.tokens = .ok f := by
  constructor
  · intro h
    obtain ⟨flags, hnodup, hname, hset⟩ := h
    have hadd : addAll .none f.tokens = .ok (flags.foldl .insert .none) :=
      (addAll_eq_ok_iff hname).2 ⟨hnodup, by simp, rfl⟩
    have hfold : flags.foldl .insert .none = f.set := FlagSet.eq_of_has fun flag => by
      rw [Bool.eq_iff_iff, FlagSet.has_foldl_insert, hset flag]
      simp
    rw [ofTokens, hadd, hfold]
    rfl
  · intro h
    obtain ⟨set, hadd, hf⟩ := bind_eq_ok_iff.1 h
    obtain ⟨flags, hname⟩ := exists_name_of_addAll hadd
    obtain ⟨hnodup, -, rfl⟩ := (addAll_eq_ok_iff hname).1 hadd
    refine ⟨flags, hnodup, hname, fun flag => ?_⟩
    rw [← Except.ok.inj hf, FlagSet.has_foldl_insert]
    simp

theorem tokens_of_ofTokens {tokens : List Token} {f : Flags} (h : ofTokens tokens = .ok f) :
    f.tokens = tokens := by
  obtain ⟨set, -, hf⟩ := bind_eq_ok_iff.1 h
  rw [← Except.ok.inj hf]

end Flags

/-! ## The reader -/

namespace Parser

variable {read cs after : List Char} {c : Char} {looks : Nat}

theorem two_le_lookAllowance : 2 ≤ lookAllowance.looks := by decide

/-- A character that is no line terminator is looked up among the letters. -/
theorem flagTokens_char (hc : ¬ isLineTerminator c) (n : Nat) (seen : FlagSet) :
    flagTokens (n + 1) seen (.between read (c :: cs) [] 0 (looks + 1))
      = (match Flag.ofLetter? c with
        | none => fail (.unknownFlag (.singleton c))
        | some f =>
          if seen.has f then fail (.duplicateFlag (.singleton c))
          else do
            let t ← token .keyword
            return t :: (← flagTokens n (seen.insert f))) (.between read (c :: cs) [] 0 looks) := by
  have htext : (Cursor.between read (c :: cs) [] 0 looks).chars = [c] := by
    rw [Cursor.chars, Cursor.charsAt, lexemes_between hc]
    rfl
  have heof := Kind.ofChar_ne_eof c
  have hcut := Kind.ofChar_ne_interpolation c
  have hterm : Kind.ofChar c ≠ .garbage := fun hk => hc (Kind.ofChar_eq_garbage_iff.1 hk)
  change (look 0 >>= _) _ = _
  rw [bind_eq_of_ok (look_between hc)]
  generalize Kind.ofChar c = k at heof hcut hterm
  split
  · contradiction
  · contradiction
  · contradiction
  · rw [get_bind_apply, Cursor.text, htext]
    rfl

/-- A new letter is taken, and its flag is on from then on. -/
theorem flagTokens_letter {f : Flag} (hf : f.letter ∉ read) (n : Nat) :
    flagTokens (n + 1) (.ofLetters read) (.between read (f.letter :: cs) [] 0 (looks + 2))
      = (flagTokens n (.ofLetters (read ++ [f.letter])) >>= fun ts =>
          pure (.ofChar .keyword f.letter :: ts))
        (.between (read ++ [f.letter]) cs [] 0 lookAllowance.looks) := by
  have hc : ¬ isLineTerminator f.letter := by cases f <;> decide
  rw [flagTokens_char hc, Flag.ofLetter?_letter]
  simp only [FlagSet.has_ofLetters, hf, decide_false, Bool.false_eq_true, if_false]
  rw [bind_eq_of_ok (token_between hc _), FlagSet.insert_ofLetters]

theorem flagTokens_end (n : Nat) (seen : FlagSet) :
    flagTokens (n + 1) seen (.between read [] [] 0 (looks + 1))
      = .ok [] (.between read [] [] 0 looks) := rfl

/-- Letters are read up to the end. -/
theorem flagTokens_letters (read : List Char) {n : Nat} (h : AreFlagLetters (read ++ cs))
    (hn : cs.length < n) (hl : 2 ≤ looks) :
    ∃ looks', flagTokens n (.ofLetters read) (.between read cs [] 0 looks)
      = .ok (letterTokens cs) (.between (read ++ cs) [] [] 0 (looks' + 1)) := by
  induction cs generalizing n read looks with
  | nil =>
    obtain _ | n := n
    · exact absurd hn (Nat.not_lt_zero _)
    obtain ⟨looks, rfl⟩ := Nat.exists_eq_add_of_le' hl
    rw [List.append_nil]
    exact ⟨looks, flagTokens_end _ _⟩
  | cons c cs ih =>
    obtain _ | n := n
    · exact absurd hn (Nat.not_lt_zero _)
    obtain ⟨f, rfl, hnew⟩ := h.exists_flag
    obtain ⟨looks, rfl⟩ := Nat.exists_eq_add_of_le' hl
    rw [List.append_cons read f.letter cs] at h ⊢
    obtain ⟨looks', hrest⟩ := ih _ h (Nat.lt_of_succ_lt_succ hn) two_le_lookAllowance
    rw [flagTokens_letter hnew, bind_eq_of_ok hrest]
    exact ⟨looks', rfl⟩

/-- A wrong character is reported where it stands. -/
theorem flagTokens_wrong (hread : AreFlagLetters read)
    (hwrong : c ∉ "gimsuy".toList ∨ c ∈ read) (n : Nat) :
    ∃ c', flagTokens (n + 1) (.ofLetters read) (.between read (c :: after) [] 0 (looks + 1))
      = .error (.error (.ofFlag read c after)) c' := by
  refine ⟨.between read (c :: after) [] 0 looks, ?_⟩
  by_cases hc : isLineTerminator c
  · obtain ⟨run, rest, hsplit, hrun, hne, hall, hrest⟩ := Lexeme.exists_run hc after
    have hlexemes : (Cursor.between read (c :: after) [] 0 looks).lexemes
        = ⟨byteSize read, .terminators run⟩
          :: Lexeme.ofSegment (byteSize read + byteSize run) rest := by
      rw [Cursor.between, hsplit]
      exact Lexeme.ofSegment_run hne hall hrest
    have hlook : look 0 (.between read (c :: after) [] 0 (looks + 1))
        = .ok .garbage (.between read (c :: after) [] 0 looks) := by
      have hk : (Cursor.between read (c :: after) [] 0 looks).kindAt 0 = .garbage := by
        rw [Cursor.kindAt, hlexemes]
        rfl
      rw [look_apply, ← hk]
      rfl
    have hspan : (Cursor.between read (c :: after) [] 0 looks).span
        = ⟨byteSize read, byteSize (read ++ run)⟩ := by
      rw [Cursor.span, hlexemes, byteSize_append]
      rfl
    change (look 0 >>= _) _ = _
    rw [bind_eq_of_ok hlook, ParseError.ofFlag, if_pos hc, ← hrun, ← hspan]
    rfl
  · have hspan : (Cursor.between read (c :: after) [] 0 looks).span
        = ⟨byteSize read, byteSize (read ++ [c])⟩ := by
      rw [Cursor.span, lexemes_between hc, byteSize_append]
      rfl
    rw [flagTokens_char hc, ParseError.ofFlag, if_neg hc, ← hspan]
    cases hf : Flag.ofLetter? c with
    | none =>
      have hno : c ∉ read := by
        intro hc
        obtain ⟨f, rfl⟩ := mem_flagLetters_iff.1 (hread.2 c hc)
        rw [Flag.ofLetter?_letter] at hf
        cases hf
      rw [if_neg hno]
      rfl
    | some f =>
      obtain rfl := Flag.letter_of_ofLetter? hf
      have hmem : f.letter ∈ read :=
        hwrong.resolve_left fun hno => hno (mem_flagLetters_iff.2 ⟨f, rfl⟩)
      simp only [FlagSet.has_ofLetters, hmem, decide_true, if_true]
      rfl

/-- The first wrong character is reported behind the letters before it. -/
theorem flagTokens_firstWrong (read : List Char) {more : List Char} {n : Nat}
    (h : FirstWrong (read ++ (more ++ c :: after)) (read ++ more) c after)
    (hn : more.length < n) (hl : 2 ≤ looks) : ∃ c', flagTokens n (.ofLetters read)
        (.between read (more ++ c :: after) [] 0 looks)
      = .error (.error (.ofFlag (read ++ more) c after)) c' := by
  induction more generalizing n read looks with
  | nil =>
    obtain _ | n := n
    · exact absurd hn (Nat.not_lt_zero _)
    obtain ⟨looks, rfl⟩ := Nat.exists_eq_add_of_le' hl
    rw [List.append_nil] at h ⊢
    exact flagTokens_wrong h.letters h.wrong n
  | cons d more ih =>
    obtain _ | n := n
    · exact absurd hn (Nat.not_lt_zero _)
    obtain ⟨f, rfl, hnew⟩ := h.letters.exists_flag
    obtain ⟨looks, rfl⟩ := Nat.exists_eq_add_of_le' hl
    rw [List.cons_append, List.append_cons read f.letter (more ++ c :: after),
      List.append_cons read f.letter more] at h
    obtain ⟨c', hrest⟩ := ih _ h (Nat.lt_of_succ_lt_succ hn) two_le_lookAllowance
    rw [List.cons_append, flagTokens_letter hnew, bind_eq_of_error hrest,
      List.append_cons read f.letter more]
    exact ⟨c', rfl⟩

/-- At the beginning of a source no node stands for the flags. -/
theorem flags_plain (cs : List Char) : flags (.between [] cs [] 0 lookAllowance.looks)
    = (flagTokens ((Lexeme.ofSegment 0 cs).length + 1) .none >>= fun tokens =>
        sound (Flags.ofTokens tokens)) (.between [] cs [] 0 (lookAllowance.looks - 1)) := by
  have hat : isAt .interpolation (.between [] cs [] 0 lookAllowance.looks)
      = .ok false (.between [] cs [] 0 (lookAllowance.looks - 1)) := by
    have hk : (Cursor.between [] cs [] 0 lookAllowance.looks).kindAt 0 ≠ .interpolation := by
      intro hcut
      obtain ⟨l, hl, hkind⟩ := Cursor.exists_mem_of_kindAt hcut nofun
      exact List.filter_eq_nil_iff.1 (Lexeme.filter_interpolation_ofSegment 0 cs) l hl
        (beq_iff_eq.2 hkind)
    have hlook : look 0 (.between [] cs [] 0 lookAllowance.looks)
        = .ok ((Cursor.between [] cs [] 0 lookAllowance.looks).kindAt 0)
          (.between [] cs [] 0 (lookAllowance.looks - 1)) := look_apply _ _
    change (look 0 >>= fun k => pure (k == .interpolation)) _ = _
    rw [bind_eq_of_ok hlook, beq_eq_false_iff_ne.2 hk]
    rfl
  change (isAt .interpolation >>= _) _ = _
  rw [bind_eq_of_ok hat]
  rfl

theorem parseFlags_letters (h : AreFlagLetters cs) :
    parseFlags (String.ofList cs) = .ok ⟨.ofLetters cs, letterTokens cs⟩ := by
  obtain ⟨looks, htokens⟩ := flagTokens_letters [] (n := cs.length + 1) h
    (Nat.lt_succ_self _) (by decide : 2 ≤ lookAllowance.looks - 1)
  rw [List.nil_append, FlagSet.ofLetters_nil] at htokens
  have hflags : flags (.between [] cs [] 0 lookAllowance.looks)
      = .ok ⟨.ofLetters cs, letterTokens cs⟩ (.between cs [] [] 0 (looks + 1)) := by
    rw [flags_plain, Lexeme.length_ofSegment h.not_isLineTerminator, bind_eq_of_ok htokens,
      sound_eq (Flags.ofTokens_letterTokens h)]
    rfl
  rw [parseFlags_eq, wholeFlags, bind_eq_of_ok hflags]
  rfl

theorem parseFlags_firstWrong {before : List Char} (h : FirstWrong cs before c after) :
    parseFlags (String.ofList cs) = .error (.error (.ofFlag before c after)) := by
  obtain rfl := h.split
  have hplain := h.letters.not_isLineTerminator
  have hlen : before.length < (Lexeme.ofSegment 0 (before ++ c :: after)).length + 1 := by
    rw [Lexeme.ofSegment_append hplain, List.length_append, Lexeme.length_ofSegment hplain]
    omega
  obtain ⟨c', htokens⟩ := flagTokens_firstWrong [] h hlen
    (by decide : 2 ≤ lookAllowance.looks - 1)
  rw [List.nil_append, FlagSet.ofLetters_nil] at htokens
  have hflags : flags (.between [] (before ++ c :: after) [] 0 lookAllowance.looks)
      = .error (.error (.ofFlag before c after)) c' := by
    rw [flags_plain, bind_eq_of_error htokens]
  rw [parseFlags_eq, wholeFlags, bind_eq_of_error hflags]
  rfl

end Parser

/-! ## Decoding -/

section Decoding

variable {members : List (String × Json)} {key : String}

theorem member_of_ofOption {α : Type} {read : Json → Decoded α} {o : Option α} {a : α}
    (h : readMember members key read = .ok o) (ha : Decoded.ofOption o = .ok a) :
    ∃ j, member? members key = some j ∧ read j = .ok a :=
  exists_of_readMember (ofOption_eq_ok_iff.1 ha ▸ h)

theorem member_of_readBool {o : Option Bool} {b : Bool}
    (h : readMember members key readBool = .ok o) (hb : Decoded.ofOption o = .ok b) :
    member? members key = some (.bool b) := by
  obtain ⟨j, hj, hread⟩ := member_of_ofOption h hb
  cases j <;> cases hread
  exact hj

theorem member_of_readString {o : Option String} {s : String}
    (h : readMember members key readString = .ok o) (hs : Decoded.ofOption o = .ok s) :
    member? members key = some (.string s) := by
  obtain ⟨j, hj, hread⟩ := member_of_ofOption h hs
  cases j <;> cases hread
  exact hj

/-- A list that is read back has the elements that were written, if each element has. -/
theorem eq_of_readList {α : Type} {read : Json → Decoded α} {write : α → Json}
    (h : ∀ a b, read (write a) = .ok b → b = a) {as bs : List α}
    (hread : readList read (.ofList write as) = .ok bs) : bs = as := by
  change readAll read (as.map write) = _ at hread
  induction as generalizing bs with
  | nil => exact (Except.ok.inj hread).symm
  | cons a as ih =>
    obtain ⟨b, hb, hread⟩ := bind_eq_ok_iff.1 hread
    obtain ⟨cs, hcs, hread⟩ := bind_eq_ok_iff.1 hread
    rw [← Except.ok.inj hread, h a b hb, ih hcs]

end Decoding

/-- The text of a token is the one that its members give. -/
theorem Token.gives_text (j : Json) : Gives (Token.ofJson j) fun t => ∃ members,
    HasMembers fieldNames j members ∧ member? members "text" = some (.string t.text) := by
  refine .struct fun members hmembers => .field .any fun closer _ => .field .any fun span _ => ?_
  refine .field .any fun balancer _ => .field .any fun category _ => .field .any fun close _ => ?_
  refine .field .any fun opener _ => .fieldSeq fun text htext => .bind .any fun category _ => ?_
  refine .seq fun text' htext' => .ofChecked fun t ht => ?_
  obtain ⟨token, htoken, ht⟩ := bind_eq_ok_iff.1 ht
  obtain ⟨pairing, hpairing, ht⟩ := bind_eq_ok_iff.1 ht
  obtain ⟨rfl, -⟩ := ofParts_eq_ok_iff.1 htoken
  cases ht
  exact ⟨members, hmembers, member_of_readString htext htext'⟩

/-- A token without text is written, but not read back as anything. -/
theorem Token.eq_of_ofJson_toJson (t t' : Token) (h : Token.ofJson t.toJson = .ok t') : t' = t := by
  by_cases ht : t.Rules
  · exact (Except.ok.inj ((ofJson_toJson ht).symm.trans h)).symm
  · obtain ⟨members, hmembers, -, -, -, -, -, -, htext⟩ := t.members_toJson
    obtain ⟨members', hmembers', htext'⟩ := Token.gives_text _ t' h
    rw [hmembers] at hmembers'
    cases hmembers'
    rw [htext] at htext'
    have hsame : t.text = t'.text := Json.string.inj (Option.some.inj htext')
    exact absurd (fun hempty => Token.gives_rules _ t' h (hsame ▸ hempty)) ht

namespace Flags

/-- What is decoded are the flags that the tokens make, if these are the flags that are claimed. -/
theorem ofJson_eq_ok_iff {j : Json} {f : Flags} :
    ofJson j = .ok f ↔ Claims j f.set f.tokens ∧ ofTokens f.tokens = .ok f := by
  rw [← rules_iff_ofTokens]
  constructor
  · intro h
    obtain ⟨members, hmembers, h⟩ := readStruct_eq_ok_iff.1 h
    obtain ⟨dotAll, hdotAll, h⟩ := Fields.run_field_eq_ok_iff.1 h
    obtain ⟨global, hglobal, h⟩ := Fields.run_field_eq_ok_iff.1 h
    obtain ⟨ignoreCase, hignoreCase, h⟩ := Fields.run_field_eq_ok_iff.1 h
    obtain ⟨multiline, hmultiline, h⟩ := Fields.run_field_eq_ok_iff.1 h
    obtain ⟨sticky, hsticky, h⟩ := Fields.run_field_eq_ok_iff.1 h
    obtain ⟨tokens, htokens, h⟩ := Fields.run_field_eq_ok_iff.1 h
    obtain ⟨unicode, hunicode, h⟩ := Fields.run_field_eq_ok_iff.1 h
    obtain ⟨g, hg, h⟩ := bind_eq_ok_iff.1 h
    obtain ⟨i, hi, h⟩ := bind_eq_ok_iff.1 h
    obtain ⟨m, hm, h⟩ := bind_eq_ok_iff.1 h
    obtain ⟨s, hs, h⟩ := bind_eq_ok_iff.1 h
    obtain ⟨u, hu, h⟩ := bind_eq_ok_iff.1 h
    obtain ⟨y, hy, h⟩ := bind_eq_ok_iff.1 h
    obtain ⟨ts, hts, h⟩ := bind_eq_ok_iff.1 h
    obtain ⟨items, hitems, hread⟩ := member_of_ofOption htokens hts
    obtain ⟨rfl, hrules⟩ := Gives.ofChecked (fun _ h' => (checked_eq_ok_iff check_eq_ok_iff).1 h')
      _ h
    refine ⟨⟨members, items, hmembers, fun flag => ?_, hitems, hread⟩, hrules⟩
    cases flag with
    | global => exact member_of_readBool hglobal hg
    | ignoreCase => exact member_of_readBool hignoreCase hi
    | multiline => exact member_of_readBool hmultiline hm
    | dotAll => exact member_of_readBool hdotAll hs
    | unicode => exact member_of_readBool hunicode hu
    | sticky => exact member_of_readBool hsticky hy
  · intro h
    obtain ⟨⟨members, items, hmembers, hflags, hitems, hread⟩, hrules⟩ := h
    have hset (flag : Flag) : readMember members flag.name readBool = .ok (some (f.set.has flag)) :=
      readMember_eq_ok (hflags flag) rfl
    refine readStruct_eq_ok_iff.2 ⟨members, hmembers, Restores.eq_ok ?_⟩
    refine .fieldStep (hset .dotAll) (.fieldStep (hset .global) (.fieldStep (hset .ignoreCase) ?_))
    refine .fieldStep (hset .multiline) (.fieldStep (hset .sticky) ?_)
    refine .fieldStep (readMember_eq_ok hitems hread) (.fieldStep (hset .unicode) ?_)
    exact .of_eq (ofChecked_eq_ok ((checked_eq_ok_iff check_eq_ok_iff).2 ⟨rfl, hrules⟩))

theorem ofJson_toJson_eq_ok_iff {set : FlagSet} {tokens : List Token} {f : Flags} :
    ofJson (toJson ⟨set, tokens⟩) = .ok f ↔ ofTokens tokens = .ok f ∧ f.set = set := by
  constructor
  · intro h
    obtain ⟨⟨members, items, hmembers, hflags, hitems, hread⟩, hf⟩ := ofJson_eq_ok_iff.1 h
    cases hmembers
    cases hitems
    rw [eq_of_readList Token.eq_of_ofJson_toJson hread] at hf
    refine ⟨hf, FlagSet.eq_of_has fun flag => ?_⟩
    have hflag := hflags flag
    cases flag <;> exact (Json.bool.inj (Option.some.inj hflag)).symm
  · intro h
    obtain ⟨hf, rfl⟩ := h
    obtain rfl := tokens_of_ofTokens hf
    have hrules := rules_iff_ofTokens.2 hf
    refine ofJson_toJson ⟨fun t ht => ?_, hrules⟩
    obtain ⟨flags, -, hname, -⟩ := hrules
    have ht : t.text ∈ flags.map fun flag => String.singleton flag.letter :=
      hname ▸ List.mem_map_of_mem ht
    obtain ⟨flag, -, hflag⟩ := List.mem_map.1 ht
    rw [Token.Rules, ← hflag]
    simp

end Flags

/-- Flags read from letters, made of a token for each letter, and decoded from tokens and claims
are the same, and are refused at the same place. -/
theorem flag_readings_agree (s : String) :
    ((∃ f, parseFlags s = .ok f) ↔ AreFlagLetters s.toList)
      ∧ ((∃ f, Flags.ofTokens (letterTokens s.toList) = .ok f) ↔ AreFlagLetters s.toList)
      ∧ (∀ f, parseFlags s = .ok f → Flags.ofTokens (letterTokens s.toList) = .ok f
        ∧ f.tokens = letterTokens s.toList
        ∧ (∀ flag, f.set.has flag = true ↔ flag.letter ∈ s.toList)
        ∧ ∀ s' : String, s'.toList.Perm s.toList →
          parseFlags s' = .ok ⟨f.set, letterTokens s'.toList⟩)
      ∧ (¬ AreFlagLetters s.toList → ∃ before c after, FirstWrong s.toList before c after
        ∧ parseFlags s = .error (.error (.ofFlag before c after))
        ∧ Flags.ofTokens (letterTokens s.toList) = .error (.ofFlag c))
      ∧ (∀ j f, Flags.ofJson j = .ok f
        ↔ Flags.Claims j f.set f.tokens ∧ Flags.ofTokens f.tokens = .ok f)
      ∧ ∀ (tokens : List Token) (set : FlagSet) (f : Flags),
        Flags.ofJson (Flags.toJson ⟨set, tokens⟩) = .ok f
          ↔ Flags.ofTokens tokens = .ok f ∧ f.set = set := by
  have hparse {s : String} (h : AreFlagLetters s.toList) :
      parseFlags s = .ok ⟨.ofLetters s.toList, letterTokens s.toList⟩ := by
    simpa using Parser.parseFlags_letters h
  have hwrong (h : ¬ AreFlagLetters s.toList) : ∃ before c after,
      FirstWrong s.toList before c after
        ∧ parseFlags s = .error (.error (.ofFlag before c after))
        ∧ Flags.ofTokens (letterTokens s.toList) = .error (.ofFlag c) := by
    obtain ⟨before, c, after, hfirst⟩ : ∃ before c after, FirstWrong s.toList before c after :=
      exists_firstWrong [] ⟨List.nodup_nil, by simp⟩ h
    exact ⟨before, c, after, hfirst, by simpa using Parser.parseFlags_firstWrong hfirst,
      Flags.ofTokens_firstWrong hfirst⟩
  have hok {f : Flags} (h : parseFlags s = .ok f) : AreFlagLetters s.toList := by
    by_contra hno
    obtain ⟨_, _, _, -, herror, -⟩ := hwrong hno
    rw [herror] at h
    cases h
  refine ⟨⟨fun ⟨f, h⟩ => hok h, fun h => ⟨_, hparse h⟩⟩, ⟨fun ⟨f, h⟩ => ?_, fun h =>
    ⟨_, Flags.ofTokens_letterTokens h⟩⟩, fun f h => ?_, hwrong, fun j f => Flags.ofJson_eq_ok_iff,
    fun tokens set f => Flags.ofJson_toJson_eq_ok_iff⟩
  · by_contra hno
    obtain ⟨_, _, _, -, -, herror⟩ := hwrong hno
    rw [herror] at h
    cases h
  · have hletters := hok h
    rw [hparse hletters] at h
    cases h
    refine ⟨Flags.ofTokens_letterTokens hletters, rfl, fun flag => by simp, fun s' hs' => ?_⟩
    rw [hparse (hletters.perm hs'.symm), FlagSet.ofLetters_perm hs']

end RegexLiteral
