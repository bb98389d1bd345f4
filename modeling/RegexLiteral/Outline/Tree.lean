import RegexLiteral.Outline.Event
import RegexLiteral.Span

/-!
# Outlines

An outline is a tree of kinds with the token texts at its leaves. It is put together from events by
keeping the entries that have started and not finished on a stack, and it is read from the front as
a row of entries, each with its byte range.
-/

namespace RegexLiteral

inductive Outline
  | token (kind : Kind) (text : String)
  | node (kind : Kind) (children : List Outline)

/-- Entries that have started, innermost first, and entries outside of all others. The children of
each, and the outer entries, stand newest first. -/
structure Assembly where
  opened : List (Kind × List Outline)
  roots : List Outline

namespace Assembly

def start : Assembly := ⟨[], []⟩

/-- A finished entry goes to the innermost one that has started. -/
def add (a : Assembly) (entry : Outline) : Assembly :=
  match a.opened with
  | [] => ⟨[], entry :: a.roots⟩
  | (kind, children) :: outer => ⟨(kind, entry :: children) :: outer, a.roots⟩

def step (a : Assembly) : OutlineEvent → Option Assembly
  | .start kind => some ⟨(kind, []) :: a.opened, a.roots⟩
  | .token kind text => some (a.add (.token kind text))
  | .finish =>
    match a.opened with
    | [] => none
    | (kind, children) :: outer => some (add ⟨outer, a.roots⟩ (.node kind children.reverse))

def steps (a : Assembly) : List OutlineEvent → Option Assembly
  | [] => some a
  | e :: es =>
    match a.step e with
    | none => none
    | some a => steps a es

/-- The one entry that has finished, if none is still open. -/
def root? (a : Assembly) : Option Outline :=
  match a with
  | ⟨[], [root]⟩ => some root
  | _ => none

end Assembly

/-- One line of an outline: how deep it lies, and what stands there. -/
structure OutlineEntry where
  depth : Nat
  kind : Kind
  span : Span
  text : String
deriving DecidableEq

namespace Outline

def ofEvents? (events : List OutlineEvent) : Option Outline :=
  (Assembly.start.steps events).bind Assembly.root?

mutual

def chars : Outline → List Char
  | token _ text => text.toList
  | node _ children => charsAll children

def charsAll : List Outline → List Char
  | [] => []
  | o :: os => chars o ++ charsAll os

end

mutual

/-- The entries of an outline that starts at byte `start`, from the front. -/
def entriesFrom (depth start : Nat) : Outline → List OutlineEntry
  | token kind text => [⟨depth, kind, ⟨start, start + byteSize text.toList⟩, text⟩]
  | node kind children =>
    let cs := charsAll children
    ⟨depth, kind, ⟨start, start + byteSize cs⟩, String.ofList cs⟩
      :: entriesFromAll (depth + 1) start children

def entriesFromAll (depth start : Nat) : List Outline → List OutlineEntry
  | [] => []
  | o :: os => entriesFrom depth start o ++ entriesFromAll depth (start + byteSize (chars o)) os

end

def entries (o : Outline) : List OutlineEntry := o.entriesFrom 0 0

end Outline

def Node.outline? (n : Node) : Option Outline := Outline.ofEvents? n.events

end RegexLiteral
