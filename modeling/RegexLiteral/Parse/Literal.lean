import RegexLiteral.Parse.Repetition

/-!
# Reading a literal

A literal is a slash, alternatives with a pipe between any two, a slash, and flag letters. The flags
can be read by themselves, and a node may stand for all of them. Reading stops at the first error.
Every node of a template has to be put in somewhere.
-/

namespace RegexLiteral

namespace Parser

/-- Flag letters up to the end, none of them in `seen` and none of them twice. -/
def flagTokens : Nat → FlagSet → Parser (List Token)
  | 0, _ => fault .endless
  | n + 1, seen => do
    match ← look 0 with
    | .eof => return []
    | .interpolation => fail .mixedFlags
    | .garbage => fail .lineTerminator
    | _ =>
      let c ← get
      match c.chars.head?.bind Flag.ofLetter? with
      | none => fail (.unknownFlag c.text)
      | some f =>
        if seen.has f then fail (.duplicateFlag c.text)
        else
          let t ← token .keyword
          return t :: (← flagTokens n (seen.insert f))

/-- The rest of the input as flags. -/
def flags : Parser Flags := do
  if ← isAt .interpolation then
    let flags ← spliceFlags
    if ← isAt .eof then return flags else fail .mixedFlags
  else
    let tokens ← flagTokens ((← get).lexemes.length + 1) .none
    sound (Flags.ofTokens tokens)

/-- The next element before a slash, a pipe or the end. -/
def nextElement : Parser (Option Element) := do
  if ← isAtAny .alternativeEnds then return none
  else
    let e ← element
    some <$> repeated e

def alternative : Parser Alternative := do return ⟨← collect nextElement⟩

/-- A pipe and the alternative behind it. -/
def nextAlternative : Parser (Option (Token × Alternative)) := do
  if ← isAt .pipe then
    let separator ← token .punctuator
    return some (separator, ← alternative)
  else return none

/-- The opening slash, with the reason why it may be missing. -/
def openingSlash : Parser Token := do
  match ← look 0 with
  | .slash =>
    openDelimiter .slash
    token .punctuator
  | .interpolation => fail .openedBySubtree
  | .garbage => fail .lineTerminator
  | _ => fail .noOpeningSlash

def closingSlash : Parser Token := do
  if ← isAt .slash then
    let slash ← token .punctuator
    closeDelimiter
    return slash
  else failUnclosed .noClosingSlash .patternOpened

def pattern : Parser Pattern := do
  let openToken ← openingSlash
  let first ← alternative
  let rest ← collect nextAlternative
  let closeToken ← closingSlash
  let flags ← flags
  sound (Pattern.ofParts (openToken.opening '/' .pattern) (first :: rest.map Prod.snd)
    (rest.map Prod.fst) closeToken.balancing flags)

/-- Nothing is left, and every node has been put in. -/
def finish : Parser Unit := do
  expect .eof
  let c ← get
  match c.substitutions with
  | [] => return ()
  | _ :: _ => failAt (.empty c.stop) (.surplusSubtree c.spliced)

/-- A literal that takes up the whole input. -/
def wholePattern : Parser Pattern := do
  let p ← pattern
  finish
  return p

/-- Flags that take up the whole input. -/
def wholeFlags : Parser Flags := do
  let f ← flags
  finish
  return f

end Parser

/-- What a source is read as. -/
inductive Production
  | pattern
  | flags
deriving DecidableEq

def Production.parser : Production → Parser Node
  | pattern => .pattern <$> Parser.wholePattern
  | flags => .flags <$> Parser.wholeFlags

/-- Runs a parser from the beginning of the template, with at most `fuel` lexemes consumed if a
limit is given. -/
def Template.run (t : Template) (parser : Parser α) (fuel : Option Nat) : Except Failure α :=
  match EStateM.run parser (t.cursor fuel) with
  | .ok a _ => .ok a
  | .error failure _ => .error failure

/-- Reads the whole template. -/
def Template.parse (t : Template) (production : Production) (fuel : Option Nat) :
    Except Failure Node :=
  t.run production.parser fuel

/-- Reads a source as a literal. -/
def parsePattern (source : String) : Except Failure Pattern :=
  (Template.ofText source).run Parser.wholePattern none

/-- Reads a source as flag letters alone. -/
def parseFlags (source : String) : Except Failure Flags :=
  (Template.ofText source).run Parser.wholeFlags none

end RegexLiteral
