import RegexLiteral.Outline.Tree
import RegexLiteral.Text.Quoted

/-!
# Dump of an outline

One line for each entry: its kind, its byte range if asked for, and the text of a token between
double quotes. Each level of depth indents by two blanks.
-/

namespace RegexLiteral

def indentation (depth : Nat) : String := String.ofList (List.replicate (2 * depth) ' ')

namespace OutlineEntry

def spanText (e : OutlineEntry) : String :=
  " [" ++ toString e.span.start ++ ".." ++ toString e.span.stop ++ "]"

def line (withSpans : Bool) (e : OutlineEntry) : String :=
  indentation e.depth ++ e.kind.name ++ (if withSpans then e.spanText else "")
    ++ (if e.kind.isToken then " " ++ Text.doubleQuoted e.text else "") ++ "\n"

end OutlineEntry

def Outline.dump (withSpans : Bool) (o : Outline) : String :=
  String.join (o.entries.map fun e => e.line withSpans)

end RegexLiteral
