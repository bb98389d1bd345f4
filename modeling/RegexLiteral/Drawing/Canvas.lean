/-!
# Drawing on a canvas

A canvas is made of rows, and a row of cells, each a character in a style. Strokes are laid on a
canvas one after the other, a later one over the earlier ones. With colours the cells of a row that
stand beside each other in one style are wrapped together.
-/

namespace RegexLiteral

inductive Style
  | plain
  /-- What is wrong: bold and bright red. -/
  | alarm
  /-- The frame and what explains the error: bold and bright blue. -/
  | frame
  /-- Bold. -/
  | strong
deriving DecidableEq

def Style.codes : Style → String
  | plain => ""
  | alarm => "\x1b[1m\x1b[91m"
  | frame => "\x1b[1m\x1b[94m"
  | strong => "\x1b[1m"

structure Cell where
  style : Style
  char : Char
deriving DecidableEq

namespace Cell

def blank : Cell := ⟨.plain, ' '⟩

/-- The cells of a text in one style. -/
def ofText (style : Style) (text : List Char) : List Cell := text.map fun c => ⟨style, c⟩

@[simp] theorem length_ofText (style : Style) (text : List Char) :
    (ofText style text).length = text.length := by
  simp [ofText]

/-- The cells of a row in runs of one style, in order. -/
def runs : List Cell → List (Style × List Char)
  | [] => []
  | c :: cs =>
    match runs cs with
    | [] => [(c.style, [c.char])]
    | (style, text) :: more =>
      if c.style = style then (style, c.char :: text) :: more
      else (c.style, [c.char]) :: (style, text) :: more

def renderRun (colored : Bool) (style : Style) (text : List Char) : String :=
  if colored && style ≠ .plain then style.codes ++ String.ofList text ++ "\x1b[0m"
  else String.ofList text

def render (colored : Bool) (row : List Cell) : String :=
  String.join ((runs row).map fun r => renderRun colored r.1 r.2)

/-- The row with the cells `top` over it from `column` on; blanks fill what lies between. -/
def overlay (column : Nat) (top row : List Cell) : List Cell :=
  if top.isEmpty then row
  else row.take column ++ List.replicate (column - row.length) blank ++ top
    ++ row.drop (column + top.length)

end Cell

structure Stroke where
  row : Nat
  column : Nat
  style : Style
  text : List Char
deriving DecidableEq

namespace Stroke

/-- A column of `height` marks from `row` downwards. -/
def down (row height column : Nat) (style : Style) (c : Char) : List Stroke :=
  (List.range height).map fun i => ⟨row + i, column, style, [c]⟩

/-- A line of marks from column `start` up to, and without, `stop`. -/
def along (row start stop : Nat) (style : Style) (c : Char) : Stroke :=
  ⟨row, start, style, List.replicate (stop - start) c⟩

end Stroke

abbrev Canvas := List (List Cell)

namespace Canvas

def draw (canvas : Canvas) (s : Stroke) : Canvas :=
  canvas.modify s.row (Cell.overlay s.column (Cell.ofText s.style s.text))

/-- A canvas of so many rows with the strokes on it. Strokes below the last row are lost. -/
def ofStrokes (height : Nat) (strokes : List Stroke) : Canvas :=
  strokes.foldl draw (List.replicate height [])

def render (colored : Bool) (canvas : Canvas) : String :=
  "\n".intercalate (canvas.map (Cell.render colored))

end Canvas

end RegexLiteral
