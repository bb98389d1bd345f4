import RegexLiteral.Node.Text

/-!
# Balanced spans

Tokens that open a span put it on a stack, and tokens that close one must find its opener on top. A
balancer closes a span that named a closing character, and the character has to be its own. A token
with `closeSpan` closes a span that was opened by name, and the name has to be the same. Within one
token the closings come before the openings.
-/

namespace RegexLiteral

inductive BalanceError
  | unmatched (index : Nat) (text : String)
  | mismatched (index : Nat) (innermost : SpanName) (text : String)
  | unclosed (span : SpanName)
deriving DecidableEq

def BalanceError.message : BalanceError → String
  | unmatched index text =>
    "token " ++ toString index ++ " (`" ++ text ++ "`) closes a span that was never opened"
  | mismatched index innermost text =>
    "token " ++ toString index ++ " (`" ++ text ++ "`) cannot close the open `"
      ++ innermost.name ++ "` span"
  | unclosed span => "`" ++ span.name ++ "` span is never closed"

/-- A span that waits for its closer: a character, or none if the name alone closes it. -/
structure OpenSpan where
  span : SpanName
  closer : Option Char
deriving DecidableEq

/-- The open spans, innermost first, and the number of tokens seen. -/
structure SpanStack where
  spans : List OpenSpan
  index : Nat
deriving DecidableEq

namespace SpanStack

def start : SpanStack := ⟨[], 0⟩

def depth (s : SpanStack) : Nat := s.spans.length

def innermost? (s : SpanStack) : Option SpanName := s.spans.head?.map OpenSpan.span

/-- Takes the innermost span off and asks whether it is the right one. -/
def close (index : Nat) (token : Token) (fits : OpenSpan → Bool) :
    EStateM BalanceError SpanStack Unit := do
  let s ← get
  match s.spans with
  | [] => throw (.unmatched index token.text)
  | top :: below =>
    set { s with spans := below }
    if fits top then pure () else throw (.mismatched index top.span token.text)

def openNew (span : OpenSpan) : EStateM BalanceError SpanStack Unit :=
  modify fun s => { s with spans := span :: s.spans }

/-- A balancer closes a span that named its character. -/
def closePaired (index : Nat) (token : Token) : EStateM BalanceError SpanStack Unit :=
  if token.isBalancer then
    close index token fun top => top.closer.isSome && top.closer == token.char?
  else pure ()

def closeNamed (index : Nat) (token : Token) : EStateM BalanceError SpanStack Unit :=
  match token.closeSpan with
  | none => pure ()
  | some span => close index token fun top => top.closer.isNone && top.span == span

def openPaired (token : Token) : EStateM BalanceError SpanStack Unit :=
  match token.pairing with
  | none => pure ()
  | some pairing => openNew ⟨pairing.span, some pairing.closer⟩

def openNamed (token : Token) : EStateM BalanceError SpanStack Unit :=
  match token.openSpan with
  | none => pure ()
  | some span => openNew ⟨span, none⟩

/-- Takes the next token. The state of a failed step stays visible: the span that did not fit is
off the stack. -/
def push (token : Token) : EStateM BalanceError SpanStack Unit := do
  let index := (← get).index
  modify fun s => { s with index := s.index + 1 }
  closePaired index token
  closeNamed index token
  openPaired token
  openNamed token

def finish (s : SpanStack) : Except BalanceError Unit :=
  match s.innermost? with
  | none => .ok ()
  | some span => .error (.unclosed span)

end SpanStack

/-- Takes all tokens in turn. -/
def pushAll : List Token → EStateM BalanceError SpanStack Unit
  | [] => pure ()
  | t :: ts => do
    SpanStack.push t
    pushAll ts

/-- Every span is closed, and by its own closer. -/
def checkBalance (tokens : List Token) : Except BalanceError Unit :=
  match (pushAll tokens).run .start with
  | .ok _ s => s.finish
  | .error e _ => .error e

end RegexLiteral
