import RegexLiteral.Json.Basic
import RegexLiteral.Node.Rules

/-!
# Trees from JSON

Reading stops at the first thing that is wrong. The members of an object are read in ascending
order of their keys, members that no field asks for are skipped, and only when all that are there
have been read does a missing one count. A structure may also be written as an array of its fields
in the order of their declaration (`fieldNames`). Then they are read in that order, and no item may
be left over. Last of all the value is held against the rules of its type, so a tree that was read
is a sound one.

Both forms of a structure are read as members. Whatever is wrong with a member is noted under its
key (`Fields`), so that each form can tell which fault it comes to first (`readStruct`).
-/

namespace RegexLiteral

/-- A value does not have the shape of its type, or it has, and breaks a rule of the type. -/
inductive DecodeError
  | shape
  | invalid (cause : InvalidNode)
deriving DecidableEq

abbrev Decoded (α : Type) := Except DecodeError α

namespace Decoded

def ofChecked : Except InvalidNode α → Decoded α
  | .ok a => .ok a
  | .error cause => .error (.invalid cause)

def ofOption : Option α → Decoded α
  | some a => .ok a
  | none => .error .shape

end Decoded

namespace Json

/-- The members of a structure with the fields `names`. The items of an array go with the names in
order. -/
def members? (names : List String) : Json → Option (List (String × Json))
  | object members => some members
  | array items => some (names.zip items)
  | _ => none

/-- The name of a variant, and its content if it has any. -/
def variant? : Json → Option (String × Option Json)
  | string name => some (name, none)
  | object [(name, content)] => some (name, some content)
  | _ => none

/-- The member that `key` stands for in a structure. -/
def field? (names : List String) (key : String) (j : Json) : Option Json :=
  (j.members? names).bind (member? · key)

theorem mem_of_member?_zip {names : List String} {items : List Json} {key : String} {j : Json}
    (h : member? (names.zip items) key = some j) : j ∈ items := by
  induction names generalizing items with
  | nil => simp [member?] at h
  | cons name names ih =>
    cases items with
    | nil => simp [member?] at h
    | cons item items =>
      simp only [member?, List.zip_cons_cons, List.lookup_cons] at h
      split at h
      · cases h
        exact List.mem_cons_self
      · exact List.mem_cons_of_mem _ (ih h)

theorem sizeOf_lt_of_field? {names : List String} {key : String} {j content : Json}
    (h : j.field? names key = some content) : sizeOf content < sizeOf j := by
  cases j with
  | object members =>
    have := sizeOf_lt_of_member? h
    simp only [object.sizeOf_spec]
    omega
  | array items =>
    have := List.sizeOf_lt_of_mem (mem_of_member?_zip h)
    simp only [array.sizeOf_spec]
    omega
  | _ => simp [field?, members?] at h

theorem sizeOf_lt_of_variant? {j content : Json} {name : String}
    (h : j.variant? = some (name, some content)) : sizeOf content < sizeOf j := by
  unfold variant? at h
  split at h
  · simp at h
  · cases h
    simp
    omega
  · simp at h

def readString : Json → Decoded String
  | string s => .ok s
  | _ => .error .shape

def readBool : Json → Decoded Bool
  | bool b => .ok b
  | _ => .error .shape

def readNumber : Json → Decoded Nat
  | number n => if n < Text.numberLimit then .ok n else .error .shape
  | _ => .error .shape

def readChar : Json → Decoded Char
  | string s =>
    match s.toList with
    | [c] => .ok c
    | _ => .error .shape
  | _ => .error .shape

def readAll (f : Json → Decoded α) : List Json → Decoded (List α)
  | [] => .ok []
  | j :: js => do
    let a ← f j
    let as ← readAll f js
    return a :: as

def readList (f : Json → Decoded α) : Json → Decoded (List α)
  | array items => readAll f items
  | _ => .error .shape

/-- `null` stands for no value. -/
def readNullable (f : Json → Decoded α) : Json → Decoded (Option α)
  | null => .ok none
  | j => some <$> f j

/-- The value of a field, if it is there. -/
def readOption (f : Json → Decoded α) : Option Json → Decoded (Option α)
  | none => .ok none
  | some j => some <$> f j

def readMember (members : List (String × Json)) (key : String) (f : Json → Decoded α) :
    Decoded (Option α) :=
  readOption f (member? members key)

/-- One of `all`, by its name. -/
def readName (all : List α) (name : α → String) (j : Json) : Decoded α :=
  match j.variant? with
  | some (s, none) | some (s, some null) => .ofOption (all.find? fun a => name a == s)
  | _ => .error .shape

/-- What the fields of a structure come to, and what is wrong with the members that could not be
read. For these the fields are missing. -/
structure Fields (α : Type) where
  faults : List (String × DecodeError)
  value : α

instance : Monad Fields where
  pure a := ⟨[], a⟩
  bind m f := ⟨m.faults ++ (f m.value).faults, (f m.value).value⟩

namespace Fields

/-- The outcome for a field, under its key. -/
def note (key : String) : Decoded (Option α) → Fields (Option α)
  | .ok o => ⟨[], o⟩
  | .error e => ⟨[(key, e)], none⟩

def run (read : Fields (Decoded α)) : Decoded α :=
  match read.faults with
  | [] => read.value
  | (_, e) :: _ => .error e

end Fields

def readField (members : List (String × Json)) (key : String) (f : Json → Decoded α) :
    Fields (Option α) :=
  .note key (readMember members key f)

/-- A structure with the fields `names`, which are asked for in ascending order. -/
def readStruct (names : List String) (fields : List (String × Json) → Fields (Decoded α)) :
    Json → Decoded α
  | object members => (fields members).run
  | array items =>
    let read := fields (names.zip items)
    -- items that are left over count when all fields are read, and before the rules
    let value := if items.length ≤ names.length then read.value else .error .shape
    Fields.run ⟨read.faults.mergeSort fun a b => names.idxOf a.1 ≤ names.idxOf b.1, value⟩
  | _ => .error .shape

end Json

open Json

def Category.ofJson : Json → Decoded Category := readName Category.all Category.name

def SpanName.ofJson : Json → Decoded SpanName := readName SpanName.all SpanName.name

def NodeType.ofJson : Json → Decoded NodeType := readName NodeType.all NodeType.name

def Flag.ofJson : Json → Decoded Flag := readName Flag.all Flag.name

/-- The two halves of a pairing come together or not at all. -/
def Token.pairingOfHalves : Option Char → Option SpanName → Except InvalidNode (Option Pairing)
  | some closer, some span => .ok (some ⟨closer, span⟩)
  | none, none => .ok none
  | _, _ => .error .halfPairing

def Token.fieldNames : List String :=
  ["category", "text", "balanced", "balancedSpan", "balancer", "openSpan", "closeSpan"]

def Token.ofJson : Json → Decoded Token := readStruct fieldNames fun members => do
  let balanced ← readField members "balanced" (readNullable readChar)
  let balancedSpan ← readField members "balancedSpan" (readNullable SpanName.ofJson)
  let balancer ← readField members "balancer" readBool
  let category ← readField members "category" Category.ofJson
  let closeSpan ← readField members "closeSpan" (readNullable SpanName.ofJson)
  let openSpan ← readField members "openSpan" (readNullable SpanName.ofJson)
  let text ← readField members "text" readString
  return do
    let category ← .ofOption category
    let text ← .ofOption text
    .ofChecked do
      let token ← Token.ofParts category text
      let pairing ← pairingOfHalves balanced.join balancedSpan.join
      return { token with
        pairing, isBalancer := balancer.getD false, openSpan := openSpan.join,
        closeSpan := closeSpan.join }

def EscapeSequence.fieldNames : List String := ["cooked", "escape", "code"]

def EscapeSequence.ofJson : Json → Decoded EscapeSequence := readStruct fieldNames fun members => do
  let code ← readField members "code" Token.ofJson
  let cooked ← readField members "cooked" readChar
  let escape ← readField members "escape" Token.ofJson
  return do
    .ofChecked (EscapeSequence.ofParts (← .ofOption cooked) (← .ofOption escape)
      (← .ofOption code))

def Character.ofJson (j : Json) : Decoded Character :=
  match j.variant? with
  | some ("Literal", some content) => do .ofChecked (Character.ofToken (← Token.ofJson content))
  | some ("Escaped", some content) => .escaped <$> EscapeSequence.ofJson content
  | _ => .error .shape

def WordCharacterSet.fieldNames : List String := ["escapeToken", "value"]

def WordCharacterSet.ofJson : Json → Decoded WordCharacterSet :=
  readStruct fieldNames fun members => do
    let escapeToken ← readField members "escapeToken" Token.ofJson
    let value ← readField members "value" Token.ofJson
    return do
      .ofChecked (WordCharacterSet.ofParts (← .ofOption escapeToken) (← .ofOption value))

def Gap.fieldNames : List String := ["escapeToken", "value"]

def Gap.ofJson : Json → Decoded Gap := readStruct fieldNames fun members => do
  let escapeToken ← readField members "escapeToken" Token.ofJson
  let value ← readField members "value" Token.ofJson
  return do
    .ofChecked (Gap.ofParts (← .ofOption escapeToken) (← .ofOption value))

def CharacterClassRange.fieldNames : List String := ["min", "sigilToken", "max"]

def CharacterClassRange.ofJson : Json → Decoded CharacterClassRange :=
  readStruct fieldNames fun members => do
    let max ← readField members "max" Character.ofJson
    let min ← readField members "min" Character.ofJson
    let sigilToken ← readField members "sigilToken" Token.ofJson
    return do
      .ofChecked (CharacterClassRange.ofParts (← .ofOption min) (← .ofOption sigilToken)
        (← .ofOption max))

def ClassElement.ofJson (j : Json) : Decoded ClassElement :=
  match j.variant? with
  | some ("Character", some content) => .character <$> Character.ofJson content
  | some ("Range", some content) => .range <$> CharacterClassRange.ofJson content
  | some ("WordCharacterSet", some content) =>
    .wordCharacterSet <$> WordCharacterSet.ofJson content
  | _ => .error .shape

def CharacterClass.fieldNames : List String :=
  ["openToken", "negateToken", "elements", "closeToken"]

def CharacterClass.ofJson : Json → Decoded CharacterClass := readStruct fieldNames fun members => do
  let closeToken ← readField members "closeToken" Token.ofJson
  let elements ← readField members "elements" (readList ClassElement.ofJson)
  let negateToken ← readField members "negateToken" (readNullable Token.ofJson)
  let openToken ← readField members "openToken" Token.ofJson
  return do
    .ofChecked (CharacterClass.ofParts (← .ofOption openToken) negateToken.join
      (← .ofOption elements) (← .ofOption closeToken))

def Bound.ofJson (j : Json) : Decoded Bound :=
  match j.variant? with
  | some ("Infinite", none) | some ("Infinite", some null) => .ok .infinite
  | some ("Finite", some content) => .finite <$> readNumber content
  | _ => .error .shape

def Braces.fieldNames : List String :=
  ["openToken", "minToken", "separatorToken", "maxToken", "closeToken"]

def Braces.ofJson : Json → Decoded Braces := readStruct fieldNames fun members => do
  let closeToken ← readField members "closeToken" Token.ofJson
  let maxToken ← readField members "maxToken" (readNullable Token.ofJson)
  let minToken ← readField members "minToken" Token.ofJson
  let openToken ← readField members "openToken" Token.ofJson
  let separatorToken ← readField members "separatorToken" (readNullable Token.ofJson)
  return do
    .ofChecked (Braces.ofParts (← .ofOption openToken) (← .ofOption minToken) separatorToken.join
      maxToken.join (← .ofOption closeToken))

def Sigil.ofJson (j : Json) : Decoded Sigil :=
  match j.variant? with
  | some ("Token", some content) => .token <$> Token.ofJson content
  | some ("Braces", some content) => .braces <$> Braces.ofJson content
  | _ => .error .shape

def Quantifier.fieldNames : List String := ["element", "sigil", "min", "max"]

/-- A quantifier of which the element is already read. -/
def Quantifier.ofElement (element : Decoded (Option Element)) : Json → Decoded Quantifier :=
  readStruct fieldNames fun members => do
    let element ← .note "element" element
    let max ← readField members "max" Bound.ofJson
    let min ← readField members "min" readNumber
    let sigil ← readField members "sigil" Sigil.ofJson
    return do
      .ofChecked (Quantifier.ofParts (← .ofOption element) (← .ofOption sigil) (← .ofOption min)
        (← .ofOption max))

/-- A quantifier is read with whatever element it holds, and its rules refuse another quantifier
there, so what is wrong deep inside comes first. -/
def Element.ofJson (j : Json) : Decoded Element :=
  match _hj : j.variant? with
  | some ("Character", some content) => (.atom <| .character ·) <$> Character.ofJson content
  | some ("CharacterClass", some content) =>
    (.atom <| .characterClass ·) <$> CharacterClass.ofJson content
  | some ("WordCharacterSet", some content) =>
    (.atom <| .wordCharacterSet ·) <$> WordCharacterSet.ofJson content
  | some ("Gap", some content) => (.atom <| .gap ·) <$> Gap.ofJson content
  | some ("Quantifier", some content) =>
    .quantifier <$> Quantifier.ofElement
      (match _he : content.field? Quantifier.fieldNames "element" with
        | none => .ok none
        | some element => some <$> Element.ofJson element)
      content
  | _ => .error .shape
termination_by sizeOf j
decreasing_by
  have h₁ := sizeOf_lt_of_variant? _hj
  have h₂ := sizeOf_lt_of_field? _he
  omega

def Quantifier.ofJson (j : Json) : Decoded Quantifier :=
  ofElement (readOption Element.ofJson (j.field? fieldNames "element")) j

def Alternative.fieldNames : List String := ["elements"]

def Alternative.ofJson : Json → Decoded Alternative := readStruct fieldNames fun members => do
  let elements ← readField members "elements" (readList Element.ofJson)
  return do return ⟨← .ofOption elements⟩

def Flags.fieldNames : List String :=
  ["global", "ignoreCase", "multiline", "dotAll", "unicode", "sticky", "tokens"]

def Flags.ofJson : Json → Decoded Flags := readStruct fieldNames fun members => do
  let dotAll ← readField members "dotAll" readBool
  let global ← readField members "global" readBool
  let ignoreCase ← readField members "ignoreCase" readBool
  let multiline ← readField members "multiline" readBool
  let sticky ← readField members "sticky" readBool
  let tokens ← readField members "tokens" (readList Token.ofJson)
  let unicode ← readField members "unicode" readBool
  return do
    let set : FlagSet := ⟨← .ofOption global, ← .ofOption ignoreCase, ← .ofOption multiline,
      ← .ofOption dotAll, ← .ofOption unicode, ← .ofOption sticky⟩
    let flags : Flags := ⟨set, ← .ofOption tokens⟩
    .ofChecked do
      flags.check
      return flags

def Pattern.fieldNames : List String :=
  ["openToken", "alternatives", "separatorTokens", "closeToken", "flags"]

def Pattern.ofJson : Json → Decoded Pattern := readStruct fieldNames fun members => do
  let alternatives ← readField members "alternatives" (readList Alternative.ofJson)
  let closeToken ← readField members "closeToken" Token.ofJson
  let flags ← readField members "flags" Flags.ofJson
  let openToken ← readField members "openToken" Token.ofJson
  let separatorTokens ← readField members "separatorTokens" (readList Token.ofJson)
  return do
    .ofChecked (Pattern.ofParts (← .ofOption openToken) (← .ofOption alternatives)
      (← .ofOption separatorTokens) (← .ofOption closeToken) (← .ofOption flags))

def Node.ofJson (j : Json) : Decoded Node :=
  match j.variant? with
  | some ("Pattern", some content) => .pattern <$> Pattern.ofJson content
  | some ("Alternative", some content) => .alternative <$> Alternative.ofJson content
  | some ("Character", some content) => .character <$> Character.ofJson content
  | some ("CharacterClass", some content) => .characterClass <$> CharacterClass.ofJson content
  | some ("CharacterClassRange", some content) =>
    .characterClassRange <$> CharacterClassRange.ofJson content
  | some ("Quantifier", some content) => .quantifier <$> Quantifier.ofJson content
  | some ("Flags", some content) => .flags <$> Flags.ofJson content
  | some ("EscapeSequence", some content) => .escapeSequence <$> EscapeSequence.ofJson content
  | some ("WordCharacterSet", some content) =>
    .wordCharacterSet <$> WordCharacterSet.ofJson content
  | some ("Gap", some content) => .gap <$> Gap.ofJson content
  | _ => .error .shape

end RegexLiteral
