import RegexLiteral.Parse.Class

/-!
# Elements and their repetition

A sigil behind an element repeats it: a plus, a star, a question mark, or numbers between braces. A
brace that does not begin a complete sigil is a literal character, so the lexemes ahead are scanned
before it is taken for one. A sigil needs an element before it, and no second sigil may follow it.
-/

namespace RegexLiteral

namespace Parser

/-- The lexemes begin with a complete sigil in braces. -/
def startsBraces (lexemes : List Lexeme) : Bool :=
  let isDigit (l : Lexeme) := l.kind == .digit
  match lexemes with
  | [] => false
  | brace :: rest =>
    brace.kind == .braceOpen
      && (rest.takeWhile isDigit).length != 0
      && match rest.dropWhile isDigit with
        | [] => false
        | next :: rest =>
          if next.kind == .comma then
            match rest.dropWhile isDigit with
            | [] => false
            | next :: _ => next.kind == .braceClose
          else next.kind == .braceClose

def isAtSigil : Parser Bool := do
  if ← isAtAny .sigils then return true
  else return startsBraces (← get).lexemes

def digit : Parser (Option Lexeme) := do
  if ← isAt .digit then some <$> consume else return none

/-- A run of digits as one token, and its value. -/
def number : Parser (Token × Nat) := do
  let start := (← get).span.start
  let digits ← collect digit
  let span ← range start (Lexeme.stopOf start digits)
  let text ← slice span
  match Text.readNumber? text with
  | none => failAt span (.numberTooLarge text)
  | some n => return (← newToken .character text, n)

/-- What stands between the first number and the closing brace: the comma and the second number. -/
def upperBound (min : Nat) : Parser (Option Token × Option Token × Bound) := do
  if ← isAt .comma then
    let separator ← token .punctuator
    if ← isAt .digit then
      let (maxToken, max) ← number
      return (some separator, some maxToken, .finite max)
    else return (some separator, none, .infinite)
  else return (none, none, .finite min)

def braces : Parser (Sigil × Nat × Bound) := do
  let start := (← get).span.start
  let openToken ← token .punctuator
  let (minToken, min) ← number
  let (separator, maxToken, max) ← upperBound min
  let stop := (← get).span.stop
  let closeToken ← token .punctuator
  if max.allows min then
    let braces ← sound (Braces.ofParts (openToken.opening '}' .quantifier) minToken separator
      maxToken closeToken.balancing)
    return (.braces braces, min, max)
  else failAt (← range start stop) (.numbersOutOfOrder min max)

/-- The bounds that a sigil of one character spells. -/
def signBounds : Parser (Option (Nat × Bound)) := do
  if ← isAtAny .sigils then return Sigil.tokenBounds? (← get).text else return none

/-- A sigil and the bounds that it spells. -/
def sigil : Parser (Sigil × Nat × Bound) := do
  if ← isAt .braceOpen then braces
  else
    match ← signBounds with
    | none => fail .noQuantifier
    | some (min, max) => return (.token (← token .keyword), min, max)

/-- The element, or the quantifier that repeats it. -/
def repeated (element : Element) : Parser Element := do
  if ← isAtSigil then
    match element with
    | .quantifier _ => fail .stackedQuantifier
    | .atom _ =>
      let (sigil, min, max) ← sigil
      if ← isAt .question then fail (.lazyQuantifier sigil.text)
      else if ← isAtSigil then fail .stackedQuantifier
      else return .quantifier (← sound (Quantifier.ofParts element sigil min max))
  else return element

/-- An element without what repeats it. -/
def element : Parser Element := do
  match ← look 0 with
  | .bracketOpen => return .atom (.characterClass (← characterClass))
  | .backslash => return .atom (← escape)
  | .interpolation => spliceElement
  | _ =>
    if ← isAtSigil then fail .nothingToRepeat
    else return .atom (.character (← literal))

end Parser

end RegexLiteral
