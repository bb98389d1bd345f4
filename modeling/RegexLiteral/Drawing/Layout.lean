import RegexLiteral.Drawing.Underline
import RegexLiteral.ParseError

/-!
# Drawing an error under its source

An error is drawn as a title, the place if a path is given, and the lines of the source that it or
what explains it lies on, with the marks under them. Of the lines between these, a single one is
shown, and dots stand for several.
-/

namespace RegexLiteral

/-- The lanes in which bows run below a line, and those that its marks open or close. A mark closes
a lane that is in use and opens one that is not. -/
structure Running where
  above : List (Nat × Tone)
  opened : List (Nat × Tone)

namespace Running

def meet (r : Running) (m : Mark) : Running :=
  match m.lane? with
  | none => r
  | some lane =>
    if r.above.any fun p => p.1 = lane then { r with above := r.above.filter fun p => p.1 ≠ lane }
    else { r with opened := r.opened ++ [(lane, m.tone)] }

def ofMarks (running : List (Nat × Tone)) (marks : List Mark) : Running :=
  marks.foldl meet ⟨running, []⟩

end Running

/-- What is drawn between a line and the next one of those with marks. -/
def Block.between? (g : Grid) (lines : List SourceLine) (running : List (Nat × Tone))
    (marks : List Mark) (l next : SourceLine) : Option Block :=
  let opened := (marks.filter Mark.opens).filterMap fun m => m.lane?.map fun lane => (lane, m.tone)
  let lanes := g.runningLanes 1 (running ++ opened)
  if l.number + 2 < next.number then some ⟨1, Grid.ellipsis :: lanes⟩
  else (lines.find? fun m => l.number < m.number && m.number < next.number).map fun m =>
    ⟨1, g.source m ++ lanes⟩

/-- The rows for all lines with marks, under `running` bows. -/
def Block.ofLines (g : Grid) (lines : List SourceLine) (running : List (Nat × Tone)) :
    List (SourceLine × List Mark) → List Block
  | [] => []
  | (l, marks) :: more =>
    let r := Running.ofMarks running marks
    let block := ofLine g l marks
    { block with strokes := block.strokes ++ g.runningLanes block.height r.above }
      :: (more.head?.bind fun next => between? g lines r.above marks l next.1).toList
      ++ ofLines g lines (r.above ++ r.opened) more

/-- The place that a path points at: that of the first mark of the error. -/
def Mark.leading? (shown : List (SourceLine × List Mark)) : Option (Nat × Nat) :=
  let isFault (m : Mark) : Bool := m.tone = .fault
  (shown.find? fun p => p.2.any isFault).bind fun (l, marks) =>
    (((marks.filter isFault).map fun m => m.start.position).min?).map fun position =>
      (l.number, position + 1)

namespace ParseError

/-- The ranges that are drawn: that of the error, and after it those that explain it. -/
def drawnSpans (e : ParseError) (source : String) : Span × List Span :=
  let limit := byteSize source.toList
  (e.span.widened limit, e.related.map fun r => r.span.widened limit)

def callouts (e : ParseError) (source : String) (lines : List SourceLine) :
    Except SplitCharacter (List Callout) := do
  let (span, others) := e.drawnSpans source
  let fault ← Callout.locate lines .fault (e.kind.hint?.getD "") span
  let context ← (others.zip e.related).mapM fun (other, r) =>
    Callout.locate lines .context r.remark.message other
  return fault :: context

/-- The number of the last line on which a range ends. -/
def lastNumber (e : ParseError) (source : String) (lines : List SourceLine) : Nat :=
  let (span, others) := e.drawnSpans source
  let stop := (others.map Span.stop).foldl max span.stop
  1 + (lines.filter fun l => 0 < l.ending && l.stop ≤ stop).length

/-- The title; further lines of a message are indented behind the word before the first. -/
def title (e : ParseError) : Canvas :=
  let shown (line : List Char) := line.flatMap Text.shown
  match SourceLine.ofSource e.message.toList with
  | [] => []
  | first :: more =>
    (Cell.ofText .alarm "error".toList ++ Cell.ofText .strong (": ".toList ++ shown first.chars))
      :: more.map fun l =>
        Cell.ofText .plain (List.replicate 7 ' ') ++ Cell.ofText .strong (shown l.chars)

def pathRow (g : Grid) (path : String) (place : Nat × Nat) : List Cell :=
  Cell.ofText .plain (List.replicate g.numbers ' ') ++ Cell.ofText .frame "--> ".toList
    ++ Cell.ofText .plain
      (path ++ ":" ++ toString place.1 ++ ":" ++ toString place.2).toList

/-- The drawing of an error over its source, unless a range splits a character. -/
def drawing (e : ParseError) (source : String) (path : Option String) :
    Except SplitCharacter Canvas := do
  let lines := SourceLine.ofSource source.toList
  let callouts ← e.callouts source lines
  let bows := Bow.ofCallouts callouts
  let shown := (lines.map fun l => (l, Mark.onLine lines callouts bows l)).filter fun p =>
    !p.2.isEmpty
  let g : Grid :=
    { numbers := (toString (e.lastNumber source lines)).length
      lanes := Bow.lanes bows
      cut := Grid.cutOf (Grid.sharedIndentation (shown.map (·.1))) }
  let place := (path.bind fun p => (Mark.leading? shown).map fun place => pathRow g p place).toList
  let rows := (Block.ofLines g lines [] shown).map fun b => Canvas.ofStrokes b.height b.strokes
  return e.title ++ place ++ Canvas.ofStrokes 1 (g.bar 0 1) ++ rows.flatten

/-- The drawing as text, with or without colours. -/
def render (e : ParseError) (source : String) (path : Option String) (colored : Bool) :
    Except SplitCharacter String :=
  (Canvas.render colored) <$> e.drawing source path

end ParseError

end RegexLiteral
