import RegexLiteral.Drawing.Bow

/-!
# The columns of a drawing

From the left, a drawing has the line numbers, a bar, the lanes of the bows and the source. A wide
indentation that all lines share is cut.
-/

namespace RegexLiteral

structure Grid where
  /-- The columns of the line numbers. -/
  numbers : Nat
  lanes : Nat
  /-- The columns that are cut from the left of the source. -/
  cut : Nat
deriving DecidableEq

namespace Grid

def barColumn (g : Grid) : Nat := g.numbers + 1

/-- The column of a lane; lanes are counted from 1. -/
def laneColumn (g : Grid) (lane : Nat) : Nat := g.numbers + 2 + lane

/-- The column at which the source starts. -/
def textColumn (g : Grid) : Nat :=
  if g.lanes = 0 then g.numbers + 3 else g.numbers + 4 + g.lanes

/-- What is cut of an indentation that all lines share: nothing up to 26 columns, and else all but
ten columns, so that dots can stand in its place. -/
def cutOf (indentation : Nat) : Nat := if 26 < indentation then indentation - 10 else 0

/-- The indentation that the lines share, those left out that are blank. -/
def sharedIndentation (lines : List SourceLine) : Nat :=
  ((lines.filter fun l => !l.isBlank).map SourceLine.indentation).min?.getD 0

/-- What is cut of a line. -/
def cutIn (g : Grid) (l : SourceLine) : Nat := min g.cut (Text.width l.chars)

/-- Where a column of a line is drawn. -/
def column (g : Grid) (l : SourceLine) (column : Nat) : Nat := g.textColumn + column - g.cutIn l

/-- Where a message at a column of a line is drawn, never to the left of the source. -/
def messageColumn (g : Grid) (l : SourceLine) (column : Nat) : Nat :=
  g.textColumn + (column - g.cutIn l)

/-- The bar beside the source in so many rows. -/
def bar (g : Grid) (row height : Nat) : List Stroke :=
  Stroke.down row height g.barColumn .frame '|'

/-- A line of the source, in row 0, with its number to the left of the bar. -/
def source (g : Grid) (l : SourceLine) : List Stroke :=
  let digits := (toString l.number).toList
  [⟨0, g.textColumn, .plain, (l.chars.drop (g.cutIn l)).flatMap Text.shown⟩,
   ⟨0, g.textColumn, .frame, if g.cut = 0 then [] else ['.', '.', '.']⟩,
   ⟨0, 0, .frame, List.replicate (g.numbers - digits.length) ' ' ++ digits⟩] ++ g.bar 0 1

/-- What is drawn instead of lines that are left out. -/
def ellipsis : Stroke := ⟨0, 0, .frame, ['.', '.', '.']⟩

/-- The lanes of the bows that run past so many rows. -/
def runningLanes (g : Grid) (height : Nat) (running : List (Nat × Tone)) : List Stroke :=
  running.flatMap fun (lane, tone) => Stroke.down 0 height (g.laneColumn lane) tone.style '|'

end Grid

end RegexLiteral
