import RegexLiteral.Drawing.Grid

/-!
# What is drawn for a line

Under a line of the source lie a row of underlines and below it the messages that do not fit beside
their marks, each led to by a stem, and the arms that lead from a lane to where a bow opens or
closes. Row 0 is the source itself.
-/

namespace RegexLiteral

namespace Mark

/-- A bow that opens before all text of its line needs no row of its own. -/
def opensAtMargin (l : SourceLine) (m : Mark) : Bool :=
  m.passes || (m.opens && (l.chars.take m.start.column).all Text.isBlank)

/-- A corner of a bow that opens at the margin. -/
def corner (g : Grid) (m : Mark) : List Stroke :=
  match m.lane? with
  | some lane => [⟨0, g.laneColumn lane, m.tone.style, ['/']⟩]
  | none => []

/-- From the lane to the mark. -/
def arm (g : Grid) (l : SourceLine) (level : Nat) (m : Mark) : List Stroke :=
  match m.lane? with
  | some lane =>
    [.along (level + 1) (g.laneColumn lane + 1) (g.column l m.start.column) m.tone.style '_']
  | none => []

/-- From the mark down to its message or its arm. -/
def stem (g : Grid) (l : SourceLine) (level : Nat) (m : Mark) : List Stroke :=
  if 0 < level && (m.hasMessage || m.bends) then
    Stroke.down 1 (level + 1) (g.column l m.start.column) m.tone.style '|'
  else []

/-- The part of the lane beside the line: above the arm where the bow closes, below it where it
opens. -/
def laneBeside (g : Grid) (depth level : Nat) (m : Mark) : List Stroke :=
  match m.shape with
  | .opening lane =>
    ⟨level + 1, g.laneColumn lane, m.tone.style, [' ']⟩
      :: Stroke.down (level + 2) (depth - level) (g.laneColumn lane) m.tone.style '|'
  | .closing lane => Stroke.down 0 (level + 2) (g.laneColumn lane) m.tone.style '|'
  | _ => []

/-- A message stands behind the underline, or below it where the stem ends. -/
def messageText (g : Grid) (l : SourceLine) (level : Nat) (m : Mark) : Stroke :=
  let text := m.message.toList.flatMap Text.shown
  if level = 0 then
    let gap := if m.stop.column = 0 then 2 else 1
    ⟨1, g.messageColumn l (m.stop.column + gap), m.tone.style, text⟩
  else ⟨level + 2, g.messageColumn l m.start.column, m.tone.style, text⟩

/-- The signs under the columns of the mark, at least one where a stem or an arm starts. -/
def underline (g : Grid) (l : SourceLine) (level : Nat) (m : Mark) : List Stroke :=
  let least := if m.bends || (0 < level && m.hasMessage) then 1 else 0
  (List.range (max least m.width)).map fun i =>
    ⟨1, g.column l (m.start.column + i), m.tone.style, [m.tone.sign]⟩

end Mark

/-- The rows of a line, with the strokes in the order in which they are laid on them. -/
structure Block where
  height : Nat
  strokes : List Stroke

/-- The rows for a line with its marks. -/
def Block.ofLine (g : Grid) (l : SourceLine) (marks : List Mark) : Block :=
  if marks.all (Mark.opensAtMargin l) then
    ⟨1, g.source l ++ (marks.filter Mark.opens).flatMap (Mark.corner g)⟩
  else
    let levels := Levels.ofMarks marks
    let each (f : Nat → Mark → List Stroke) := levels.marks.flatMap fun p => f p.1 p.2
    ⟨levels.depth + 2,
      g.source l ++ g.bar 1 (levels.depth + 1)
        ++ each (Mark.arm g l)
        ++ each (fun level m => m.stem g l level ++ m.laneBeside g levels.depth level)
        ++ each (fun level m => [m.messageText g l level])
        ++ (levels.marks.mergeSort fun p q => p.2.isUnder q.2).flatMap fun p =>
          p.2.underline g l p.1⟩

end RegexLiteral
