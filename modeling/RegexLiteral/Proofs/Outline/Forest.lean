import RegexLiteral.Outline.Tree
import RegexLiteral.Proofs.Site

/-!
# Rows of outlines

An outline can be told as events again, and putting these together gives it back
(`Outline.ofEvents?_events`). What stands at its leaves is its text, so the entries for the leaves
are laid out one behind another, without gap or overlap (`Outline.tokens_entriesFrom`). All this is
said of rows of outlines, because it is with rows that an outline is built.
-/

namespace RegexLiteral

/-- A leaf of an outline. -/
structure Leaf where
  kind : Kind
  text : String
deriving DecidableEq

/-- The leaves with their ranges, the first of them at `start`. -/
def Leaf.layOut : Nat → List Leaf → List (Leaf × Span)
  | _, [] => []
  | start, l :: ls =>
    let stop := start + byteSize l.text.toList
    (l, ⟨start, stop⟩) :: layOut stop ls

/-- The characters of the leaves. -/
def Leaf.joined (ls : List Leaf) : List Char := ls.flatMap fun l => l.text.toList

theorem Leaf.layOut_append : ∀ (start : Nat) (a b : List Leaf),
    layOut start (a ++ b) = layOut start a ++ layOut (start + byteSize (joined a)) b
  | _, [], _ => rfl
  | start, l :: a, b => by
    simp only [List.cons_append, layOut, layOut_append _ a b, joined, List.flatMap_cons,
      byteSize_append, Nat.add_assoc]

theorem Leaf.map_fst_layOut : ∀ (start : Nat) (ls : List Leaf), (layOut start ls).map Prod.fst = ls
  | _, [] => rfl
  | _, l :: ls => congrArg (l :: ·) (map_fst_layOut _ ls)

/-- The spans follow each other from `start` to `stop`, without gap or overlap. -/
def Span.Tile : Nat → Nat → List Span → Prop
  | start, stop, [] => start = stop
  | start, stop, s :: ss => s.start = start ∧ s.start ≤ s.stop ∧ Tile s.stop stop ss

theorem Leaf.tile_layOut : ∀ (start : Nat) (ls : List Leaf),
    Span.Tile start (start + byteSize (joined ls)) ((layOut start ls).map Prod.snd)
  | _, [] => rfl
  | start, l :: ls => by
    have ih := tile_layOut (start + byteSize l.text.toList) ls
    refine ⟨rfl, Nat.le_add_right _ _, ?_⟩
    rwa [joined, List.flatMap_cons, byteSize_append, ← Nat.add_assoc]

namespace OutlineEntry

def leaf (e : OutlineEntry) : Leaf := ⟨e.kind, e.text⟩

/-- The entries for tokens. -/
def tokens (es : List OutlineEntry) : List OutlineEntry := es.filter fun e => e.kind.isToken

/-- The entries for what has tokens in it. -/
def inner (es : List OutlineEntry) : List OutlineEntry := es.filter fun e => !e.kind.isToken

end OutlineEntry

namespace Outline

mutual

/-- The events that tell the outline. -/
def events : Outline → List OutlineEvent
  | token kind text => [.token kind text]
  | node kind children => OutlineEvent.within kind (eventsAll children)

def eventsAll : List Outline → List OutlineEvent
  | [] => []
  | o :: os => events o ++ eventsAll os

end

mutual

/-- The tokens have token kinds, and nothing else has. -/
def Sorted : Outline → Prop
  | token kind _ => kind.isToken = true
  | node kind children => kind.isToken = false ∧ SortedAll children

def SortedAll : List Outline → Prop
  | [] => True
  | o :: os => Sorted o ∧ SortedAll os

end

mutual

def leaves : Outline → List Leaf
  | token kind text => [⟨kind, text⟩]
  | node _ children => leavesAll children

def leavesAll : List Outline → List Leaf
  | [] => []
  | o :: os => leaves o ++ leavesAll os

end

/-! ## Rows -/

theorem eventsAll_append : ∀ a b : List Outline, eventsAll (a ++ b) = eventsAll a ++ eventsAll b
  | [], _ => rfl
  | o :: a, b => by rw [List.cons_append, eventsAll, eventsAll, eventsAll_append, List.append_assoc]

theorem sortedAll_append : ∀ {a b : List Outline}, SortedAll a → SortedAll b → SortedAll (a ++ b)
  | [], _, _, hb => hb
  | _ :: _, _, ha, hb => ⟨ha.1, sortedAll_append ha.2 hb⟩

theorem leavesAll_append : ∀ a b : List Outline, leavesAll (a ++ b) = leavesAll a ++ leavesAll b
  | [], _ => rfl
  | o :: a, b => by rw [List.cons_append, leavesAll, leavesAll, leavesAll_append, List.append_assoc]

theorem entriesFromAll_append (depth : Nat) : ∀ (start : Nat) (a b : List Outline),
    entriesFromAll depth start (a ++ b) = entriesFromAll depth start a
      ++ entriesFromAll depth (start + byteSize (charsAll a)) b
  | _, [], _ => rfl
  | start, o :: a, b => by
    rw [List.cons_append, entriesFromAll, entriesFromAll, entriesFromAll_append, List.append_assoc,
      charsAll, byteSize_append, Nat.add_assoc]

mutual

/-- The text of an outline is that of its leaves. -/
theorem chars_eq : ∀ o : Outline, chars o = Leaf.joined (leaves o)
  | token _ text => by simp [chars, leaves, Leaf.joined]
  | node _ children => charsAll_eq children

theorem charsAll_eq : ∀ os : List Outline, charsAll os = Leaf.joined (leavesAll os)
  | [] => rfl
  | o :: os => by
    rw [charsAll, chars_eq o, charsAll_eq os, leavesAll, Leaf.joined, Leaf.joined, Leaf.joined,
      List.flatMap_append]

end

mutual

/-- The entries for the tokens are those of the leaves, one behind another. -/
theorem tokens_entriesFrom : ∀ (depth start : Nat) (o : Outline), o.Sorted →
    (OutlineEntry.tokens (o.entriesFrom depth start)).map (fun e => (e.leaf, e.span))
      = Leaf.layOut start o.leaves
  | _, _, token kind text, h => by
    have hk : kind.isToken = true := h
    simp [entriesFrom, OutlineEntry.tokens, leaves, Leaf.layOut, OutlineEntry.leaf, hk]
  | depth, start, node kind children, h => by
    simpa [entriesFrom, OutlineEntry.tokens, h.1, leaves] using
      tokens_entriesFromAll (depth + 1) start children h.2

theorem tokens_entriesFromAll : ∀ (depth start : Nat) (os : List Outline), SortedAll os →
    (OutlineEntry.tokens (entriesFromAll depth start os)).map (fun e => (e.leaf, e.span))
      = Leaf.layOut start (leavesAll os)
  | _, _, [], _ => rfl
  | depth, start, o :: os, h => by
    have ih := tokens_entriesFrom depth start o h.1
    have ihs := tokens_entriesFromAll depth (start + byteSize (chars o)) os h.2
    rw [OutlineEntry.tokens] at ih ihs ⊢
    rw [entriesFromAll, List.filter_append, List.map_append, ih, ihs, leavesAll,
      Leaf.layOut_append, chars_eq]

end

mutual

/-- The range of an entry cuts its text out of that of the whole. -/
theorem slice?_of_mem_entriesFrom : ∀ (depth : Nat) (before : List Char) (o : Outline)
    (after : List Char), ∀ e ∈ o.entriesFrom depth (byteSize before),
      e.span.slice? (before ++ chars o ++ after) = some e.text.toList
  | depth, before, token kind text, after, e, he => by
    obtain rfl := List.mem_singleton.1 he
    rw [← byteSize_append]
    exact Span.slice?_append before text.toList after
  | depth, before, node kind children, after, e, he => by
    rcases List.mem_cons.1 he with rfl | he
    · rw [← byteSize_append, String.toList_ofList]
      exact Span.slice?_append before (charsAll children) after
    · exact slice?_of_mem_entriesFromAll (depth + 1) before children after e he

theorem slice?_of_mem_entriesFromAll : ∀ (depth : Nat) (before : List Char) (os : List Outline)
    (after : List Char), ∀ e ∈ entriesFromAll depth (byteSize before) os,
      e.span.slice? (before ++ charsAll os ++ after) = some e.text.toList
  | _, _, [], _, e, he => absurd he List.not_mem_nil
  | depth, before, o :: os, after, e, he => by
    rw [charsAll]
    rcases List.mem_append.1 he with he | he
    · have := slice?_of_mem_entriesFrom depth before o (charsAll os ++ after) e he
      simpa using this
    · rw [← byteSize_append] at he
      have := slice?_of_mem_entriesFromAll depth (before ++ chars o) os after e he
      simpa using this

end

/-! ## Putting outlines together -/

/-- Entries that finish inside another one become its children. -/
theorem foldl_add_opened (kind : Kind) (outer : List (Kind × List Outline)) (roots : List Outline) :
    ∀ (os children : List Outline), os.foldl Assembly.add ⟨(kind, children) :: outer, roots⟩
      = ⟨(kind, os.reverse ++ children) :: outer, roots⟩
  | [], _ => rfl
  | o :: os, children => by
    rw [List.foldl_cons, show Assembly.add ⟨(kind, children) :: outer, roots⟩ o
      = ⟨(kind, o :: children) :: outer, roots⟩ from rfl, foldl_add_opened]
    simp

mutual

/-- The events of an outline add it as a whole. -/
theorem steps_events : ∀ (a : Assembly) (o : Outline) (es : List OutlineEvent),
    a.steps (o.events ++ es) = (a.add o).steps es
  | _, token _ _, _ => rfl
  | a, node kind children, es => by
    rw [events, OutlineEvent.within, List.cons_append, List.cons_append, List.append_assoc]
    rw [show a.steps (.start kind :: (eventsAll children ++ ([.finish] ++ es)))
      = Assembly.steps ⟨(kind, []) :: a.opened, a.roots⟩ (eventsAll children ++ ([.finish] ++ es))
      from rfl, steps_eventsAll, foldl_add_opened, List.append_nil]
    rw [List.singleton_append, Assembly.steps, Assembly.step]
    simp

theorem steps_eventsAll : ∀ (a : Assembly) (os : List Outline) (es : List OutlineEvent),
    a.steps (eventsAll os ++ es) = (os.foldl Assembly.add a).steps es
  | _, [], _ => rfl
  | a, o :: os, es => by
    rw [eventsAll, List.append_assoc, steps_events, steps_eventsAll, List.foldl_cons]

end

/-- Events and outlines say the same. -/
theorem ofEvents?_events (o : Outline) : ofEvents? o.events = some o := by
  rw [ofEvents?, ← List.append_nil o.events, steps_events]
  rfl

end Outline

end RegexLiteral
