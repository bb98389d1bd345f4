import RegexLiteral.Drawing.Canvas
import RegexLiteral.Drawing.SourceLine

/-!
# Callouts

A callout points at a stretch of the source and may have a message. One callout of a drawing shows
what is wrong, the others explain it.
-/

namespace RegexLiteral

inductive Tone
  /-- What is wrong. -/
  | fault
  /-- What explains it. -/
  | context
deriving DecidableEq

namespace Tone

def style : Tone → Style
  | fault => .alarm
  | context => .frame

/-- The mark under what is pointed at. -/
def sign : Tone → Char
  | fault => '^'
  | context => '-'

end Tone

structure Callout where
  tone : Tone
  start : Place
  stop : Place
  /-- Empty for none. -/
  message : String
deriving DecidableEq

namespace Callout

/-- The callout for a range of the source. On one line it takes at least one column. A range that
ends in the end of a later line takes one column behind the text of that line. -/
def locate (lines : List SourceLine) (tone : Tone) (message : String) (span : Span) :
    Except SplitCharacter Callout := do
  let first := SourceLine.holding lines span.start
  let start ← first.place span.start
  let start :=
    if first.textStop < span.start then { start with position := start.position + 1 } else start
  if span.isEmpty then return ⟨tone, start, { start with column := start.column + 1 }, message⟩
  let last := SourceLine.holding lines span.stop
  let stop ← last.place span.stop
  let stop :=
    if first.number ≠ last.number then
      if last.textStop < span.stop then stop.right 1 else stop
    else if start.column = stop.column then { stop with column := stop.column + 1 }
    else stop
  return ⟨tone, start, stop, message⟩

def isOnOneLine (c : Callout) : Bool := c.start.line = c.stop.line

/-- Whether the callouts point at the same stretch. -/
def sameReach (a b : Callout) : Bool := a.start = b.start && a.stop = b.stop

end Callout

end RegexLiteral
