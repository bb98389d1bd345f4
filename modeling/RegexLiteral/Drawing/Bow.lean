import RegexLiteral.Drawing.Mark

/-!
# Bows

A callout over several lines is drawn as a bow: it opens on its first line, runs down in a lane to
the left of the source, and closes on its last line. Bows that share a line run in different lanes.
-/

namespace RegexLiteral

structure Bow where
  callout : Callout
  /-- From 1, the leftmost. -/
  lane : Nat
  /-- Whether another bow over the same stretch stands for it, so that only its end is marked. -/
  isMerged : Bool
deriving DecidableEq

namespace Bow

def ofCallout (c : Callout) : Bow := ⟨c, 1, false⟩

def first (b : Bow) : Nat := b.callout.start.line

def last (b : Bow) : Nat := b.callout.stop.line

/-- Whether the bows have a line in common. -/
def crosses (a b : Bow) : Bool :=
  (b.first ≤ a.first && a.first ≤ b.last) || (a.first ≤ b.first && b.first ≤ a.last)

/-- The order in which lanes are given to bows: an earlier one first, and of two that open on one
line the longer one. -/
def isBefore (a b : Bow) : Bool :=
  a.first < b.first || (a.first = b.first && b.last ≤ a.last)

/-- A bow over the stretch of a fault points at the fault. -/
def joining (faults : List Bow) (a : Bow) : Bow :=
  if faults.any fun f => f.callout.sameReach a.callout then
    { a with callout := { a.callout with tone := .fault } }
  else a

/-- Room for `b` among the bows, up to itself or to the first that it does not cross: each that it
crosses moves on by a lane, and another one over the same stretch is merged with it. -/
def makeRoom (faults : List Bow) (b : Bow) : List Bow → List Bow
  | [] => []
  | a :: as =>
    if b.callout.sameReach a.callout && b ≠ a then
      { a with isMerged := true } :: makeRoom faults b as
    else if !b.callout.sameReach a.callout && b.crosses a then
      { a with lane := a.lane + 1 } :: makeRoom faults b as
    else joining faults a :: as

/-- The number of lanes that the bows take. -/
def lanes (bows : List Bow) : Nat := (bows.map Bow.lane).foldl max 0

/-- The bows of the callouts over several lines, the bow that was moved on most in the first
lane. -/
def ofCallouts (callouts : List Callout) : List Bow :=
  let bows := ((callouts.filter fun c => !c.isOnOneLine).map ofCallout).mergeSort isBefore
  let faults := bows.filter fun b => b.callout.tone = .fault
  let moved := bows.foldl (fun done b => makeRoom faults b done) bows
  moved.map fun b => { b with lane := lanes moved - b.lane + 1 }

/-- Of the lines below the first, the last one that is shown of at most four before the end. Lines
at the end of these that say nothing are left out. -/
def lastShown (lines : List SourceLine) (b : Bow) : Nat :=
  let head := lines.filter fun l => b.first ≤ l.number && l.number < min (b.first + 4) b.last
  match head.reverse.find? SourceLine.tells with
  | some l => l.number
  | none => b.first

/-- Whether the bow passes the line, and the line is shown: one of the first lines, or the one
before the last if it says something. -/
def passes (lines : List SourceLine) (b : Bow) (l : SourceLine) : Bool :=
  (b.first < l.number && l.number ≤ b.lastShown lines)
    || (b.first + 5 < b.last && l.number + 1 = b.last && l.tells)

/-- What the line has of the bow. -/
def markOn? (lines : List SourceLine) (b : Bow) (l : SourceLine) : Option Mark :=
  let c := b.callout
  let closing : Place :=
    { c.stop with position := c.stop.position - 1, column := c.stop.column - 1 }
  if l.number = b.last then
    some ⟨if b.isMerged then .whole else .closing b.lane, c.tone, closing, c.stop, c.message⟩
  else if b.isMerged then none
  else if l.number = b.first then
    some ⟨.opening b.lane, c.tone, c.start, c.start.right 1, ""⟩
  else if b.passes lines l then some ⟨.passing b.lane, c.tone, ⟨0, 0, 0⟩, ⟨0, 0, 0⟩, ""⟩
  else none

end Bow

/-- The marks on a line: first the callouts that lie on it, then what it has of the bows. -/
def Mark.onLine (lines : List SourceLine) (callouts : List Callout) (bows : List Bow)
    (l : SourceLine) : List Mark :=
  (callouts.filterMap fun c =>
    if c.isOnOneLine && c.start.line = l.number then
      some ⟨.whole, c.tone, c.start, c.stop, c.message⟩
    else none)
    ++ bows.filterMap fun b => b.markOn? lines l

end RegexLiteral
