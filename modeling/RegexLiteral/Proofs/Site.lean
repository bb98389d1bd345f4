import RegexLiteral.Node.Family
import RegexLiteral.Proofs.Spelling
import RegexLiteral.Span

/-!
# Sites in a source

A site is a part of a source from which a node was read that can be put in again there: an element
of an alternative, what a quantifier repeats, an element of a class, an end of a range, or the flags
(`Pattern.sites`). Some sites lie in others, as the ends of a range lie in the range. To cut
sites out of a source is to leave out what stands there, and to put in their nodes
(`Template.cutOut?`).
-/

namespace RegexLiteral

structure Site where
  start : Nat
  stop : Nat
  node : Node
deriving DecidableEq

/-- The bytes that the tokens take in a source. -/
def width (tokens : List Token) : Nat := byteSize (spelled tokens)

@[simp] theorem width_nil : width [] = 0 := rfl

@[simp] theorem width_append (a b : List Token) : width (a ++ b) = width a + width b := by
  rw [width, spelled_append, byteSize_append]
  rfl

theorem width_cons (t : Token) (ts : List Token) : width (t :: ts) = width [t] + width ts :=
  width_append [t] ts

/-- What can be put in for the node: an escaped character can also go as a bare escape sequence. -/
def Node.guises (n : Node) : List Node :=
  match n with
  | .character (.escaped e) => [n, .escapeSequence e]
  | _ => [n]

namespace Site

/-- The sites of a whole node that starts at `start`. -/
def whole (start : Nat) (n : Node) : List Site :=
  n.guises.map fun g => ⟨start, start + width n.tokens, g⟩

/-- The sites in parts that stand one behind another. -/
def inRow (sites : Nat → α → List Site) (tokens : α → List Token) : Nat → List α → List Site
  | _, [] => []
  | start, a :: as => sites start a ++ inRow sites tokens (start + width (tokens a)) as

end Site

def CharacterClassRange.sites (start : Nat) (r : CharacterClassRange) : List Site :=
  Site.whole start (.character r.min)
    ++ Site.whole (start + width r.min.tokens + width [r.sigilToken]) (.character r.max)

def ClassElement.innerSites (start : Nat) : ClassElement → List Site
  | range r => r.sites start
  | _ => []

def ClassElement.sites (start : Nat) (e : ClassElement) : List Site :=
  Site.whole start e.toNode ++ e.innerSites start

def CharacterClass.sites (start : Nat) (c : CharacterClass) : List Site :=
  Site.inRow ClassElement.sites ClassElement.tokens
    (start + width [c.openToken] + width c.negateToken.toList) c.elements

def Atom.innerSites (start : Nat) : Atom → List Site
  | characterClass c => c.sites start
  | _ => []

def Atom.sites (start : Nat) (a : Atom) : List Site :=
  Site.whole start a.toNode ++ a.innerSites start

def Element.sites (start : Nat) : Element → List Site
  | atom a => a.sites start
  | quantifier q => Site.whole start (.quantifier q) ++ q.atom.sites start

def Alternative.sites (start : Nat) (a : Alternative) : List Site :=
  Site.inRow Element.sites Element.tokens start a.elements

/-- The sites in an alternative behind its separator. -/
def Alternative.sitesBehind (start : Nat) (r : Token × Alternative) : List Site :=
  r.2.sites (start + width [r.1])

namespace Pattern

/-- Where the flags start. -/
def flagsStart (p : Pattern) : Nat :=
  width [p.openToken] + width p.first.tokens + width (p.rest.flatMap fun r => r.1 :: r.2.tokens)
    + width [p.closeToken]

/-- All sites, each in front of those that lie in it. -/
def sites (p : Pattern) : List Site :=
  p.first.sites (width [p.openToken])
    ++ (Site.inRow Alternative.sitesBehind (fun r => r.1 :: r.2.tokens)
        (width [p.openToken] + width p.first.tokens) p.rest
      ++ Site.whole p.flagsStart (.flags p.flags))

end Pattern

/-! ## Where sites start -/

namespace Site

variable {start : Nat} {p : Site}

theorem start_of_mem_whole {n : Node} (h : p ∈ whole start n) : p.start = start := by
  obtain ⟨g, -, rfl⟩ := List.mem_map.1 h
  rfl

theorem start_le_of_mem_inRow {sites : Nat → α → List Site} {tokens : α → List Token}
    (h : ∀ (start : Nat) (a : α), p ∈ sites start a → p.start ≤ start + width (tokens a)) :
    ∀ {start : Nat} {as : List α}, p ∈ inRow sites tokens start as →
      p.start ≤ start + width (as.flatMap tokens)
  | _, [], hp => absurd hp List.not_mem_nil
  | start, a :: as, hp => by
    rw [List.flatMap_cons, width_append]
    rcases List.mem_append.1 hp with hp | hp
    · have := h start a hp
      omega
    · have := start_le_of_mem_inRow h hp
      omega

end Site

theorem ClassElement.start_le_of_mem_sites {p : Site} (start : Nat) (e : ClassElement)
    (h : p ∈ e.sites start) : p.start ≤ start + width e.tokens := by
  rcases List.mem_append.1 h with h | h
  · rw [Site.start_of_mem_whole h]
    exact Nat.le_add_right _ _
  · cases e with
    | range r =>
      rw [tokens, CharacterClassRange.tokens, width_append, width_cons r.sigilToken]
      rcases List.mem_append.1 h with h | h
      · rw [Site.start_of_mem_whole h]
        omega
      · rw [Site.start_of_mem_whole h]
        omega
    | _ => cases h

/-- All sites lie before the closing bracket. -/
theorem CharacterClass.start_le_of_mem_sites {start : Nat} {c : CharacterClass} {p : Site}
    (h : p ∈ c.sites start) : p.start + width [c.closeToken] ≤ start + width c.tokens := by
  have hle := Site.start_le_of_mem_inRow ClassElement.start_le_of_mem_sites h
  rw [tokens, List.cons_append, List.cons_append, width_cons c.openToken, width_append,
    width_append]
  omega

theorem Atom.start_le_of_mem_sites {start : Nat} {a : Atom} {p : Site}
    (h : p ∈ a.sites start) : p.start ≤ start + width a.tokens := by
  rcases List.mem_append.1 h with h | h
  · rw [Site.start_of_mem_whole h]
    exact Nat.le_add_right _ _
  · cases a with
    | characterClass c => exact Nat.le_of_add_right_le (CharacterClass.start_le_of_mem_sites h)
    | _ => cases h

namespace Template

/-- The segments of a text from `start` on, if the sites are cut out. -/
def segmentsFrom? (text : List Char) (start : Nat) : List Site → Option (String × List String)
  | [] => do return (String.ofList (← (⟨start, byteSize text⟩ : Span).slice? text), [])
  | p :: ps => do
    let first ← (⟨start, p.start⟩ : Span).slice? text
    let (next, later) ← segmentsFrom? text p.stop ps
    return (String.ofList first, next :: later)

/-- The source without what stands at the sites, and with their nodes put in there. -/
def cutOut? (source : String) (sites : List Site) : Option Template := do
  let (first, later) ← segmentsFrom? source.toList 0 sites
  return ⟨first, later, sites.map Site.node⟩

end Template

end RegexLiteral
