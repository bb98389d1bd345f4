import RegexLiteral.Drawing.Callout

/-!
# Marks on a line

What a line of the source has of the callouts is a mark on it: a callout as a whole, or the line on
which a bow opens, closes, or that it passes. The marks of a line are laid on levels. A message on
level 0 stands beside its mark, a message on a deeper level below it, so that no message runs into
another mark.
-/

namespace RegexLiteral

/-- What a line has of a callout. The number is the lane in which a bow runs. -/
inductive Shape
  | whole
  | opening (lane : Nat)
  | passing (lane : Nat)
  | closing (lane : Nat)
deriving DecidableEq

structure Mark where
  shape : Shape
  tone : Tone
  start : Place
  stop : Place
  message : String
deriving DecidableEq

namespace Mark

def hasMessage (m : Mark) : Bool := m.message ≠ ""

def opens (m : Mark) : Bool := match m.shape with
  | .opening _ => true
  | _ => false

def passes (m : Mark) : Bool := match m.shape with
  | .passing _ => true
  | _ => false

/-- The lane that the mark opens or closes. -/
def lane? (m : Mark) : Option Nat := match m.shape with
  | .opening lane => some lane
  | .closing lane => some lane
  | _ => none

/-- Whether a line leads from the mark to a lane. -/
def bends (m : Mark) : Bool := m.lane?.isSome

def width (m : Mark) : Nat := m.stop.column - m.start.column

/-- Whether the marks share a column when `m` is taken to be `extra` columns longer. -/
def meets (m : Mark) (extra : Nat) (n : Mark) : Bool :=
  (n.start.column ≤ m.start.column && m.start.column < n.stop.column)
    || (m.start.column ≤ n.start.column && n.start.column < m.stop.column + extra)

/-- The order of marks from the right to the left. -/
def isRightOf (m n : Mark) : Bool :=
  n.start.column < m.start.column
    || (n.start.column = m.start.column && n.start.position ≤ m.start.position)

def sameExtent (m n : Mark) : Bool :=
  m.start.column = n.start.column && m.start.position = n.start.position
    && m.stop.column = n.stop.column && m.stop.position = n.stop.position

/-- Whether `n` ends no further to the right than `m`. -/
def covers (m n : Mark) : Bool :=
  n.stop.column < m.stop.column
    || (n.stop.column = m.stop.column && n.stop.position ≤ m.stop.position)

/-- The columns that a message takes behind its mark, with a blank on both sides. -/
def reserved (m : Mark) : Nat :=
  if m.hasMessage then m.message.utf8ByteSize + 2 else 0

/-- Whether the message of `m` cannot stand beside it because of `n`, which starts no further to
the right. -/
def yieldsTo (m n : Mark) : Bool :=
  n.meets 0 m && m.hasMessage && (n.hasMessage || !n.sameExtent m)

/-- Whether `n`, which starts no further to the right, has to go to a deeper level than `m`. -/
def sinks (level : Nat) (m n : Mark) : Bool :=
  (n.meets n.reserved m && n.hasMessage && (m.hasMessage || (level = 0 && m.covers n)))
    || (m.bends && (n.hasMessage || n.bends))
    || (m.hasMessage && n.bends)

/-- The marks of a line with their levels. The marks come from the right to the left, and no mark
lies on a higher level than one before it. -/
def levels (level : Nat) : List Mark → List (Nat × Mark)
  | [] => []
  | m :: later =>
    let own := if level = 0 && later.any m.yieldsTo then 1 else level
    (own, m) :: levels (if later.any (sinks own m) then own + 1 else own) later

/-- The order in which marks are underlined: a shorter one over a longer one, and of two of one
length the error over what explains it. -/
def isUnder (m n : Mark) : Bool :=
  n.width < m.width || (n.width = m.width && (m.tone = .context || n.tone = .fault))

end Mark

/-- The marks of a line on their levels, and the number of rows that they take below the row of the
underlines. -/
structure Levels where
  marks : List (Nat × Mark)
  depth : Nat

/-- Where bows only open, the rightmost of them lies deepest, and no row is kept for messages. -/
def Levels.ofMarks (ms : List Mark) : Levels :=
  let marks := Mark.levels 0 (ms.mergeSort Mark.isRightOf)
  let deepest := (marks.map (·.1)).foldl max 0
  if ms.all Mark.opens then ⟨marks.map fun (level, m) => (deepest - level, m), deepest⟩
  else ⟨marks, if deepest = 0 then 0 else deepest + 1⟩

end RegexLiteral
