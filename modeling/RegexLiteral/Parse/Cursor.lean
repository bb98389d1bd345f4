import RegexLiteral.Lexeme
import RegexLiteral.Node.Family
import RegexLiteral.Node.Rules
import RegexLiteral.ParseError

/-!
# The reading position

A parser works on a cursor: the lexemes and the nodes of a template that have not been used yet, and
two allowances. Consuming a lexeme costs one unit of fuel, if fuel is limited at all. Looking at a
lexeme costs a look, and consuming one gives all looks back, so a parser that looks for ever without
consuming is stopped. How many looks that are is fixed for a run (`LookAllowance`).

There are three ways to fail. The source may break the grammar, the fuel may run out, or the parser
may break one of its own rules, which is a fault.
-/

namespace RegexLiteral

/-- What a parser must never do. -/
inductive Fault
  /-- Looks too often without consuming. -/
  | stalled
  /-- Repeats a step more often than there are lexemes. -/
  | endless
  /-- Consumes when nothing is left. -/
  | pastEnd
  /-- Starts on a lexeme of the wrong kind. -/
  | misplaced (expected : Kind)
  /-- Makes a range that ends before it starts. -/
  | reversedRange
  /-- Cuts the source where no character begins. -/
  | badSlice (span : Span)
  /-- Leaves a delimiter open that is no slash and no bracket. -/
  | strangeDelimiter (kind : Kind)
  /-- Puts together a node that is not sound. -/
  | unsound (cause : InvalidNode)
deriving DecidableEq

inductive Failure
  | error (e : ParseError)
  | outOfFuel
  | fault (f : Fault)
deriving DecidableEq

/-- Whether something fails in a given way is found out by running it. -/
instance Failure.decidableFails {α : Type} (r : Except Failure α) (f : Failure) :
    Decidable (r = .error f) :=
  match r with
  | .ok _ => .isFalse nofun
  | .error f' => decidable_of_iff (f' = f) ⟨congrArg _, Except.error.inj⟩

/-- A delimiter that waits for its partner. -/
structure OpenDelimiter where
  kind : Kind
  span : Span
deriving DecidableEq

/-- The looks between one consumed lexeme and the next. Twelve of them are enough for any parser. -/
structure LookAllowance where
  looks : Nat
  enough : 12 ≤ looks
deriving DecidableEq

/-- What a parser is allowed. -/
def lookAllowance : LookAllowance := ⟨256, by decide⟩

structure Cursor where
  lexemes : List Lexeme
  substitutions : List Node
  /-- The number of nodes that have been put in. -/
  spliced : Nat
  /-- The delimiters that are still open, innermost first. -/
  delimiters : List OpenDelimiter
  looks : Nat
  allowance : LookAllowance
  fuel : Option Nat
  /-- The whole source, whatever has been read of it. -/
  source : List Char
deriving DecidableEq

namespace Cursor

def kindAt (c : Cursor) (n : Nat) : Kind :=
  match c.lexemes[n]? with
  | some l => l.kind
  | none => .eof

def charsAt (c : Cursor) (n : Nat) : List Char :=
  match c.lexemes[n]? with
  | some l => l.chars
  | none => []

def chars (c : Cursor) : List Char := c.charsAt 0

def text (c : Cursor) : String := String.ofList c.chars

/-- The end of the source. -/
def stop (c : Cursor) : Nat := byteSize c.source

/-- The range of the next lexeme, or the end of the source. -/
def span (c : Cursor) : Span :=
  match c.lexemes with
  | l :: _ => l.span
  | [] => .empty c.stop

end Cursor

abbrev Parser := EStateM Failure Cursor

namespace Parser

def fault (f : Fault) : Parser α := throw (.fault f)

def failAt (span : Span) (cause : Cause) : Parser α := throw (.error ⟨cause, span, []⟩)

/-- The source is wrong at the cursor. -/
def fail (cause : Cause) : Parser α := do failAt (← get).span cause

/-- The source is wrong at the cursor, because of what stands at `related`. -/
def failBecause (cause : Cause) (related : List Related) : Parser α := do
  throw (.error ⟨cause, (← get).span, related⟩)

/-- The source is wrong at the cursor, because the innermost delimiter is still open. -/
def failUnclosed (cause : Cause) (remark : Remark) : Parser α := do
  match (← get).delimiters with
  | [] => failBecause cause []
  | d :: _ =>
    if d.kind == .slash || d.kind == .bracketOpen then failBecause cause [⟨d.span, remark⟩]
    else fault (.strangeDelimiter d.kind)

def range (start stop : Nat) : Parser Span :=
  if start ≤ stop then return ⟨start, stop⟩ else fault .reversedRange

/-- The part of the source that lies in a range. -/
def slice (span : Span) : Parser String := do
  match span.slice? (← get).source with
  | none => fault (.badSlice span)
  | some cs => return String.ofList cs

/-- The kind of the lexeme that `n` others precede. -/
def look (n : Nat) : Parser Kind := do
  let c ← get
  match c.looks with
  | 0 => fault .stalled
  | looks + 1 =>
    set { c with looks }
    return c.kindAt n

def isAt (kind : Kind) : Parser Bool := do return (← look 0) == kind

def isAtAny (kinds : KindSet) : Parser Bool := do return kinds.contains (← look 0)

def expect (kind : Kind) : Parser Unit := do
  if ← isAt kind then return () else fault (.misplaced kind)

def refillLooks : Parser Unit := modify fun c => { c with looks := c.allowance.looks }

def spendFuel : Parser Unit := do
  let c ← get
  match c.fuel with
  | none => return ()
  | some 0 => throw .outOfFuel
  | some (n + 1) => set { c with fuel := some n }

/-- Takes the next lexeme. Line terminators are refused here, whoever meets them. -/
def consume : Parser Lexeme := do
  match (← get).lexemes with
  | [] => fault .pastEnd
  | l :: rest =>
    if ← isAt .garbage then fail .lineTerminator
    else
      refillLooks
      spendFuel
      modify fun c => { c with lexemes := rest }
      return l

/-- A node that a parser puts together has to be sound. -/
def sound : Except InvalidNode α → Parser α
  | .ok a => return a
  | .error cause => fault (.unsound cause)

def newToken (category : Category) (text : String) : Parser Token :=
  sound (Token.ofParts category text)

/-- Takes the next lexeme as a token. -/
def token (category : Category) : Parser Token := do
  let l ← consume
  newToken category l.text

/-- Takes the cut at the cursor and the node that belongs there. -/
def substitution : Parser Node := do
  expect .interpolation
  let c ← get
  match c.substitutions with
  | [] => fail (.noSubtree c.spliced)
  | node :: rest =>
    let _ ← consume
    modify fun c => { c with substitutions := rest, spliced := c.spliced + 1 }
    return node

/-- Notes that the delimiter at the cursor opens. -/
def openDelimiter (kind : Kind) : Parser Unit :=
  modify fun c => { c with delimiters := ⟨kind, c.span⟩ :: c.delimiters }

def closeDelimiter : Parser Unit := modify fun c => { c with delimiters := c.delimiters.tail }

/-- Repeats `step` until it gives nothing, at most `n` times with a result. -/
def collectWithin (step : Parser (Option α)) : Nat → Parser (List α)
  | 0 => fault .endless
  | n + 1 => do
    match ← step with
    | none => return []
    | some a => return a :: (← collectWithin step n)

/-- Repeats `step` until it gives nothing. A step with a result has to consume a lexeme. -/
def collect (step : Parser (Option α)) : Parser (List α) := do
  collectWithin step ((← get).lexemes.length + 1)

end Parser

/-- The cursor at the beginning of a template. -/
def Template.cursor (t : Template) (fuel : Option Nat) : Cursor where
  lexemes := t.lexemes
  substitutions := t.substitutions
  spliced := 0
  delimiters := []
  looks := lookAllowance.looks
  allowance := lookAllowance
  fuel := fuel
  source := t.source.toList

end RegexLiteral
