import RegexLiteral.Node.Text
import RegexLiteral.Text.Quoted

/-!
# Rules of tokens and nodes

A sound node spells what its type says: delimiters are the right ones and carry the right marks, an
escape decodes to its cooked character, a quantifier repeats as often as its sigil spells, and the
flags that are on are those of the flag tokens. Each `check` looks at one node, its parts left out,
and names the first rule that it breaks. Each `ofParts` puts a node together and checks it. The only
unchecked way to a node that matters is the constructor `Character.literal`.
-/

namespace RegexLiteral

/-- The types that have rules. -/
inductive Owner
  | token
  | pattern
  | character
  | escapeSequence
  | characterClass
  | characterClassRange
  | quantifier
  | braces
  | wordCharacterSet
  | gap
  | flags
deriving DecidableEq

def Owner.name : Owner → String
  | token => "Token"
  | pattern => "Pattern"
  | character => "Character"
  | escapeSequence => "EscapeSequence"
  | characterClass => "CharacterClass"
  | characterClassRange => "CharacterClassRange"
  | quantifier => "Quantifier"
  | braces => "Braces"
  | wordCharacterSet => "WordCharacterSet"
  | gap => "Gap"
  | flags => "Flags"

/-- The part that a token plays in its node. -/
inductive Role
  | openToken
  | closeToken
  | separator
  | negateToken
  | sigil
  | escape
  | escapeToken
  | value
deriving DecidableEq

def Role.name : Role → String
  | openToken => "open token"
  | closeToken => "close token"
  | separator => "separator"
  | negateToken => "negate token"
  | sigil => "sigil"
  | escape => "escape"
  | escapeToken => "escape token"
  | value => "value"

/-- The rule that a token or node breaks. -/
inductive InvalidNode
  | emptyToken
  | halfPairing
  | noAlternative
  | separatorCount (separators alternatives : Nat)
  | misspelt (owner : Owner) (role : Role) (expected found : String)
  | notOpening (owner : Owner) (span : SpanName)
  | notBalancing (owner : Owner)
  | literalCategory (found : Category)
  | literalLength (text : String)
  | escapeNotOpened
  | escapeNotClosed
  | codeLength (text : String)
  | cooked (value code : Char)
  | boundOrder (min : Nat) (max : Bound)
  | nestedQuantifier
  | otherBounds (sigil : String) (min : Nat) (max : Bound)
  | maxAlone
  | notANumber (text : String)
  | notAWordSet (text : String)
  | notAFlag (text : String)
  | repeatedFlag (flag : Flag)
  | flagAttribute (flag : Flag)
deriving DecidableEq

namespace InvalidNode

def owner : InvalidNode → Owner
  | emptyToken | halfPairing => .token
  | noAlternative | separatorCount .. => .pattern
  | misspelt owner .. | notOpening owner _ | notBalancing owner => owner
  | literalCategory _ | literalLength _ => .character
  | escapeNotOpened | escapeNotClosed | codeLength _ | cooked .. => .escapeSequence
  | boundOrder .. | nestedQuantifier | otherBounds .. => .quantifier
  | maxAlone | notANumber _ => .braces
  | notAWordSet _ => .wordCharacterSet
  | notAFlag _ | repeatedFlag _ | flagAttribute _ => .flags

/-- What is wrong, without naming the owner. -/
def reason : InvalidNode → String
  | emptyToken => "empty token text"
  | halfPairing => "`balanced` and `balancedSpan` must be set together"
  | noAlternative => "a pattern has at least one alternative"
  | separatorCount separators alternatives =>
    "expected exactly one separator between adjacent alternatives, got " ++ toString separators
      ++ " for " ++ toString alternatives
  | misspelt _ role expected found =>
    role.name ++ " must be `" ++ expected ++ "`, got `" ++ found ++ "`"
  | notOpening _ span => "open token must open the " ++ span.name ++ " span"
  | notBalancing _ => "close token must be a balancer"
  | literalCategory found => "expected a Character token, got " ++ found.name
  | literalLength text => "literal token `" ++ text ++ "` must be exactly one character"
  | escapeNotOpened => "backslash must open the Escape span"
  | escapeNotClosed => "code must close the Escape span"
  | codeLength text => "code `" ++ text ++ "` must be exactly one character"
  | cooked value code =>
    "cooked value " ++ Text.singleQuoted value ++ " does not decode `\\" ++ code.toString ++ "`"
  | boundOrder min max => "min " ++ toString min ++ " exceeds max " ++ max.text
  | nestedQuantifier => "quantifiers do not nest"
  | otherBounds sigil min max =>
    "`" ++ sigil ++ "` does not repeat " ++ toString min ++ " to " ++ max.text ++ " times"
  | maxAlone => "max bound without `,` separator"
  | notANumber text => "bound `" ++ text ++ "` is not a 32-bit decimal number"
  | notAWordSet text => "value must be `w` or `W`, got `" ++ text ++ "`"
  | notAFlag text => "`" ++ text ++ "` is not a flag letter"
  | repeatedFlag flag => "duplicate flag `" ++ flag.letter.toString ++ "`"
  | flagAttribute flag => "attribute `" ++ flag.name ++ "` disagrees with the flag tokens"

def message (e : InvalidNode) : String := "invalid " ++ e.owner.name ++ ": " ++ e.reason

end InvalidNode

/-- Raises `cause` unless `p` holds. -/
def require (p : Prop) [Decidable p] (cause : InvalidNode) : Except InvalidNode Unit :=
  if p then .ok () else .error cause

namespace Token

def check (t : Token) : Except InvalidNode Unit := require (t.text ≠ "") .emptyToken

def checkText (t : Token) (owner : Owner) (role : Role) (text : String) :
    Except InvalidNode Unit :=
  require (t.text = text) (.misspelt owner role text t.text)

/-- The token reads `text` and opens `span`, which `closer` closes. -/
def checkOpening (t : Token) (owner : Owner) (text : String) (closer : Char) (span : SpanName) :
    Except InvalidNode Unit := do
  t.checkText owner .openToken text
  require (t.pairing = some ⟨closer, span⟩) (.notOpening owner span)

/-- The token reads `text` and is a balancer. -/
def checkBalancing (t : Token) (owner : Owner) (text : String) : Except InvalidNode Unit := do
  t.checkText owner .closeToken text
  require t.isBalancer (.notBalancing owner)

def ofParts (category : Category) (text : String) : Except InvalidNode Token := do
  let t := plain category text
  t.check
  return t

end Token

def Character.check : Character → Except InvalidNode Unit
  | literal token => do
    require (token.category = .character) (.literalCategory token.category)
    require token.char?.isSome (.literalLength token.text)
  | escaped _ => .ok ()

/-- A literal character, checked. -/
def Character.ofToken (token : Token) : Except InvalidNode Character := do
  let c := Character.literal token
  c.check
  return c

namespace EscapeSequence

def check (e : EscapeSequence) : Except InvalidNode Unit := do
  e.escape.checkText .escapeSequence .escape "\\"
  require (e.escape.openSpan = some .escape) .escapeNotOpened
  require (e.code.closeSpan = some .escape) .escapeNotClosed
  match e.code.char? with
  | none => .error (.codeLength e.code.text)
  | some c => require (decode c = e.cooked) (.cooked e.cooked c)

def ofParts (cooked : Char) (escape code : Token) : Except InvalidNode EscapeSequence := do
  let e : EscapeSequence := ⟨cooked, escape, code⟩
  e.check
  return e

end EscapeSequence

namespace WordCharacterSet

def check (s : WordCharacterSet) : Except InvalidNode Unit := do
  s.escapeToken.checkText .wordCharacterSet .escapeToken "\\"
  require (s.value.text = "w" ∨ s.value.text = "W") (.notAWordSet s.value.text)

def ofParts (escapeToken value : Token) : Except InvalidNode WordCharacterSet := do
  let s : WordCharacterSet := ⟨escapeToken, value⟩
  s.check
  return s

end WordCharacterSet

namespace Gap

def check (g : Gap) : Except InvalidNode Unit := do
  g.escapeToken.checkText .gap .escapeToken "\\"
  g.value.checkText .gap .value "g"

def ofParts (escapeToken value : Token) : Except InvalidNode Gap := do
  let g : Gap := ⟨escapeToken, value⟩
  g.check
  return g

end Gap

namespace CharacterClassRange

def check (r : CharacterClassRange) : Except InvalidNode Unit :=
  r.sigilToken.checkText .characterClassRange .sigil "-"

def ofParts (min : Character) (sigilToken : Token) (max : Character) :
    Except InvalidNode CharacterClassRange := do
  let r : CharacterClassRange := ⟨min, sigilToken, max⟩
  r.check
  return r

end CharacterClassRange

namespace CharacterClass

def check (c : CharacterClass) : Except InvalidNode Unit := do
  c.openToken.checkOpening .characterClass "[" ']' .characterClass
  c.closeToken.checkBalancing .characterClass "]"
  match c.negateToken with
  | none => .ok ()
  | some t => t.checkText .characterClass .negateToken "^"

def ofParts (openToken : Token) (negateToken : Option Token) (elements : List ClassElement)
    (closeToken : Token) : Except InvalidNode CharacterClass := do
  let c : CharacterClass := ⟨openToken, negateToken, elements, closeToken⟩
  c.check
  return c

end CharacterClass

namespace Braces

def checkNumber (t : Token) : Except InvalidNode Unit :=
  require (Text.readNumber? t.text).isSome (.notANumber t.text)

def check (b : Braces) : Except InvalidNode Unit := do
  b.openToken.checkOpening .braces "\x7b" '}' .quantifier
  b.closeToken.checkBalancing .braces "\x7d"
  match b.separatorToken with
  | none => require b.maxToken.isNone .maxAlone
  | some t => t.checkText .braces .separator ","
  checkNumber b.minToken
  match b.maxToken with
  | none => .ok ()
  | some t => checkNumber t

def ofParts (openToken minToken : Token) (separatorToken maxToken : Option Token)
    (closeToken : Token) : Except InvalidNode Braces := do
  let b : Braces := ⟨openToken, minToken, separatorToken, maxToken, closeToken⟩
  b.check
  return b

end Braces

namespace Quantifier

def check (q : Quantifier) : Except InvalidNode Unit := do
  require (q.max.allows q.min) (.boundOrder q.min q.max)
  require (q.sigil.bounds? = some (q.min, q.max)) (.otherBounds q.sigil.text q.min q.max)

/-- Bounds that are out of order count before a quantifier that is to be repeated. -/
def ofParts (element : Element) (sigil : Sigil) (min : Nat) (max : Bound) :
    Except InvalidNode Quantifier := do
  match element with
  | .atom atom =>
    let q : Quantifier := ⟨atom, sigil, min, max⟩
    q.check
    return q
  | .quantifier _ =>
    require (max.allows min) (.boundOrder min max)
    throw .nestedQuantifier

end Quantifier

namespace Flags

/-- Turns on the flags that the tokens name, each at most once. -/
def addAll (set : FlagSet) : List Token → Except InvalidNode FlagSet
  | [] => .ok set
  | t :: ts =>
    match t.char?.bind Flag.ofLetter? with
    | none => .error (.notAFlag t.text)
    | some f => if set.has f then .error (.repeatedFlag f) else addAll (set.insert f) ts

def ofTokens (tokens : List Token) : Except InvalidNode Flags := do
  return ⟨← addAll .none tokens, tokens⟩

/-- The stored flags are those of the tokens. -/
def check (f : Flags) : Except InvalidNode Unit := do
  let set ← addAll .none f.tokens
  match Flag.all.find? fun flag => set.has flag != f.set.has flag with
  | none => .ok ()
  | some flag => .error (.flagAttribute flag)

end Flags

namespace Pattern

def checkSeparators : List Token → Except InvalidNode Unit
  | [] => .ok ()
  | t :: ts => do
    t.checkText .pattern .separator "|"
    checkSeparators ts

def check (p : Pattern) : Except InvalidNode Unit := do
  checkSeparators p.separatorTokens
  p.openToken.checkOpening .pattern "/" '/' .pattern
  p.closeToken.checkBalancing .pattern "/"

def ofParts (openToken : Token) (alternatives : List Alternative) (separatorTokens : List Token)
    (closeToken : Token) (flags : Flags) : Except InvalidNode Pattern := do
  match alternatives with
  | [] => throw .noAlternative
  | first :: others =>
    require (separatorTokens.length = others.length)
      (.separatorCount separatorTokens.length (others.length + 1))
    let p : Pattern := ⟨openToken, first, separatorTokens.zip others, closeToken, flags⟩
    p.check
    return p

end Pattern

end RegexLiteral
