import RegexLiteral.Parse.Atom

/-!
# Character classes

Between brackets every character but the closing bracket and the backslash is literal. A minus
makes a range if a character stands before it and one that can be a character stands behind it;
otherwise it is literal as well.
-/

namespace RegexLiteral

namespace Parser

/-- The next node to be put in will be taken as a character. -/
def nextIsCharacter (substitutions : List Node) : Bool :=
  match substitutions with
  | [] => false
  | node :: _ => node.type == .character || node.type == .escapeSequence

/-- Behind the next lexeme stands something that can end a range. -/
def rangeEndFollows : Parser Bool := do
  match ← look 1 with
  | .bracketClose | .eof | .garbage => return false
  | .backslash =>
    let c ← get
    return !(c.charsAt 2 == ['w'] || c.charsAt 2 == ['W'])
  | .interpolation => return nextIsCharacter (← get).substitutions
  | _ => return true

def isAtRange : Parser Bool := do
  if ← isAt .minus then rangeEndFollows else return false

/-- An element that is no range. -/
def classAtom : Parser ClassElement := do
  match ← look 0 with
  | .backslash => classEscape
  | .interpolation => spliceClassElement
  | _ => .character <$> literal

def rangeEnd : Parser Character := do
  let span := (← get).span
  match ← classAtom with
  | .character c => return c
  | other => failAt span (.notARangeEnd other.type)

/-- A character, or the range that it begins. -/
def rangeFrom (min : Character) : Parser ClassElement := do
  if ← isAtRange then
    let sigil ← token .punctuator
    let max ← rangeEnd
    return .range (← sound (CharacterClassRange.ofParts min sigil max))
  else return .character min

def classElement : Parser ClassElement := do
  match ← classAtom with
  | .character min => rangeFrom min
  | other => return other

/-- The next element before the closing bracket. -/
def nextClassElement : Parser (Option ClassElement) := do
  match ← look 0 with
  | .bracketClose => return none
  | .eof => failUnclosed .unclosedClass .classOpened
  | _ => some <$> classElement

def classElements : Parser (List ClassElement) := collect nextClassElement

def negation : Parser (Option Token) := do
  if ← isAt .caret then some <$> token .punctuator else return none

def classBody : Parser (Option Token × List ClassElement) := do
  let negateToken ← negation
  return (negateToken, ← classElements)

def characterClass : Parser CharacterClass := do
  expect .bracketOpen
  openDelimiter .bracketOpen
  let openToken ← token .punctuator
  let (negateToken, elements) ← classBody
  let closeToken ← token .punctuator
  closeDelimiter
  sound (CharacterClass.ofParts (openToken.opening ']' .characterClass) negateToken elements
    closeToken.balancing)

end Parser

end RegexLiteral
