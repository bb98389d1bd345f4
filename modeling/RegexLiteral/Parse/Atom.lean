import RegexLiteral.Parse.Cursor

/-!
# Literal characters, escapes and embedded nodes

A backslash takes the character behind it as its code. The codes `w` and `W` name word character
sets wherever they stand, and `g` names a gap, but only outside a class. Every other code is an
escaped character. At a cut a node is put in, if its family is the one that may stand there.
-/

namespace RegexLiteral

namespace Parser

/-- Any lexeme, taken for itself. -/
def literal : Parser Character := do sound (Character.ofToken (← token .character))

/-- A backslash and the character behind it. -/
def escapeCode : Parser Char := do
  expect .backslash
  let backslash := (← get).span
  let _ ← consume
  if ← isAt .interpolation then fail .escapeEndsInSubtree
  else if ← isAt .garbage then fail .lineTerminator
  else
    match (← get).chars with
    | [] => failBecause .unfinishedEscape [⟨backslash, .escapeStarted⟩]
    | code :: _ =>
      let _ ← consume
      return code

/-- The tokens of a backslash and its code, written anew. -/
def escapeTokens (code : Char) : Parser (Token × Token) := do
  let backslash ← newToken .punctuator "\\"
  return (backslash, ← newToken .keyword (String.singleton code))

def escapedCharacter (code : Char) : Parser Character := do
  let (backslash, codeToken) ← escapeTokens code
  return .escaped (← sound (EscapeSequence.ofParts (EscapeSequence.decode code)
    (backslash.startingSpan .escape) (codeToken.endingSpan .escape)))

def wordSet (code : Char) : Parser WordCharacterSet := do
  let (backslash, code) ← escapeTokens code
  sound (WordCharacterSet.ofParts backslash code)

def gap (code : Char) : Parser Gap := do
  let (backslash, code) ← escapeTokens code
  sound (Gap.ofParts backslash code)

def isWordCode (code : Char) : Bool := code == 'w' || code == 'W'

/-- A backslash and its code, outside a class. -/
def escape : Parser Atom := do
  let code ← escapeCode
  if isWordCode code then return .wordCharacterSet (← wordSet code)
  else if code == 'g' then return .gap (← gap code)
  else return .character (← escapedCharacter code)

/-- A backslash and its code, inside a class. -/
def classEscape : Parser ClassElement := do
  let code ← escapeCode
  if isWordCode code then return .wordCharacterSet (← wordSet code)
  else return .character (← escapedCharacter code)

/-- The node at a cut, if `family?` takes it; otherwise the cut is wrong for the reason `cause`. -/
def splice (family? : Node → Option α) (cause : NodeType → Cause) : Parser α := do
  let span := (← get).span
  let node ← substitution
  match family? node with
  | some a => return a
  | none => failAt span (cause node.type)

def spliceElement : Parser Element := splice Node.element? .notAnElement

def spliceClassElement : Parser ClassElement := splice Node.classElement? .notAClassElement

def spliceFlags : Parser Flags := splice Node.flags? .notFlags

end Parser

end RegexLiteral
