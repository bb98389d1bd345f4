import RegexLiteral.Node.Basic
import RegexLiteral.Span

/-!
# Templates

A template is a source cut into segments, with nodes to be put in at the cuts. The node of the
first cut is the first in the list, and so on. The number of nodes is not tied to the number of
cuts: a cut without a node, or a node without a cut, is an error of whoever reads the template.
-/

namespace RegexLiteral

structure Template where
  first : String
  /-- The segments behind the cuts. -/
  later : List String
  substitutions : List Node
deriving DecidableEq

namespace Template

def ofText (text : String) : Template := ⟨text, [], []⟩

def empty : Template := ofText ""

/-- No segment at all is the same as one empty segment. -/
def ofParts (segments : List String) (substitutions : List Node) : Template :=
  match segments with
  | [] => ⟨"", [], substitutions⟩
  | first :: later => ⟨first, later, substitutions⟩

/-- Writes `text` behind the last of the segments. -/
def appendLast (first : String) (later : List String) (text : String) : String × List String :=
  match later with
  | [] => (first ++ text, [])
  | next :: more =>
    let (next, more) := appendLast next more text
    (first, next :: more)

/-- Adds text at the end. -/
def appendText (t : Template) (text : String) : Template :=
  let (first, later) := appendLast t.first t.later text
  { t with first, later }

/-- Adds a cut at the end, and a node behind all others. -/
def embed (t : Template) (node : Node) : Template :=
  { t with later := t.later ++ [""], substitutions := t.substitutions ++ [node] }

def segments (t : Template) : List String := t.first :: t.later

/-- The segments joined. Error ranges are ranges of this text. -/
def source (t : Template) : String := String.ofList (t.segments.flatMap String.toList)

/-- Where the segments after the first start, the first of them at `position`. -/
def startsFrom (position : Nat) : List String → List Nat
  | [] => []
  | s :: more => position :: startsFrom (position + byteSize s.toList) more

/-- The byte positions of the cuts. -/
def boundaries (t : Template) : List Nat := startsFrom (byteSize t.first.toList) t.later

end Template

end RegexLiteral
