/-!
# Byte ranges

Positions in a source count the bytes of its UTF-8 form. A span is the range from `start` up to,
and without, `stop`. A text can be cut at a position only between two of its characters.
-/

namespace RegexLiteral

structure Span where
  start : Nat
  stop : Nat
deriving DecidableEq

namespace Span

/-- The range of no bytes at `position`. -/
def empty (position : Nat) : Span := ⟨position, position⟩

def isEmpty (s : Span) : Bool := s.start == s.stop

/-- An empty range is widened to one byte, so that it can be drawn, unless it lies at `limit`. -/
def widened (s : Span) (limit : Nat) : Span :=
  if s.isEmpty then ⟨s.start, min (s.start + 1) limit⟩ else s

end Span

/-- The number of bytes that the characters take in UTF-8. -/
def byteSize : List Char → Nat
  | [] => 0
  | c :: cs => c.utf8Size + byteSize cs

@[simp] theorem byteSize_nil : byteSize [] = 0 := rfl

@[simp] theorem byteSize_cons (c : Char) (cs : List Char) :
    byteSize (c :: cs) = c.utf8Size + byteSize cs := rfl

@[simp] theorem byteSize_append (a b : List Char) :
    byteSize (a ++ b) = byteSize a + byteSize b := by
  induction a with
  | nil => simp
  | cons c a ih => rw [List.cons_append, byteSize_cons, byteSize_cons, ih, Nat.add_assoc]

/-- What stands behind the first `n` bytes, if a character begins there. -/
def dropBytes? : Nat → List Char → Option (List Char)
  | 0, cs => some cs
  | _ + 1, [] => none
  | n + 1, c :: cs =>
    if c.utf8Size ≤ n + 1 then dropBytes? (n + 1 - c.utf8Size) cs else none

/-- The first `n` bytes, if a character ends there. -/
def takeBytes? : Nat → List Char → Option (List Char)
  | 0, _ => some []
  | _ + 1, [] => none
  | n + 1, c :: cs =>
    if c.utf8Size ≤ n + 1 then (takeBytes? (n + 1 - c.utf8Size) cs).map (c :: ·) else none

/-- The part of a text that lies in the range, if both ends lie between characters of the text. -/
def Span.slice? (s : Span) (cs : List Char) : Option (List Char) :=
  if s.start ≤ s.stop then (dropBytes? s.start cs).bind (takeBytes? (s.stop - s.start)) else none

theorem dropBytes?_append (a rest : List Char) :
    dropBytes? (byteSize a) (a ++ rest) = some rest := by
  induction a with
  | nil => cases rest <;> rfl
  | cons c a ih =>
    obtain ⟨n, hn⟩ := Nat.exists_eq_add_of_lt c.utf8Size_pos
    have hs : byteSize (c :: a) = n + byteSize a + 1 := by rw [byteSize_cons]; omega
    have hr : n + byteSize a + 1 - c.utf8Size = byteSize a := by omega
    rw [hs, List.cons_append, dropBytes?, if_pos (by omega), hr, ih]

theorem takeBytes?_append (a rest : List Char) :
    takeBytes? (byteSize a) (a ++ rest) = some a := by
  induction a with
  | nil => cases rest <;> rfl
  | cons c a ih =>
    obtain ⟨n, hn⟩ := Nat.exists_eq_add_of_lt c.utf8Size_pos
    have hs : byteSize (c :: a) = n + byteSize a + 1 := by rw [byteSize_cons]; omega
    have hr : n + byteSize a + 1 - c.utf8Size = byteSize a := by omega
    rw [hs, List.cons_append, takeBytes?, if_pos (by omega), hr, ih]
    rfl

/-- A part of a text is what its own range cuts out. -/
theorem Span.slice?_append (before part after : List Char) :
    (⟨byteSize before, byteSize (before ++ part)⟩ : Span).slice? (before ++ part ++ after)
      = some part := by
  have hle : byteSize before ≤ byteSize (before ++ part) := by simp
  have hs : byteSize (before ++ part) - byteSize before = byteSize part := by simp
  rw [slice?, if_pos hle, List.append_assoc, dropBytes?_append, Option.bind_some, hs,
    takeBytes?_append]

end RegexLiteral
