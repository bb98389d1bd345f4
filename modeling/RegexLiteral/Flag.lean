/-!
# The six flags

A literal ends in flag letters. There are six of them, and they are always listed in the order of
`Flag.all`, whatever the order of their letters in a source.
-/

namespace RegexLiteral

inductive Flag
  | global
  | ignoreCase
  | multiline
  | dotAll
  | unicode
  | sticky
deriving DecidableEq

namespace Flag

def all : List Flag := [global, ignoreCase, multiline, dotAll, unicode, sticky]

def letter : Flag → Char
  | global => 'g'
  | ignoreCase => 'i'
  | multiline => 'm'
  | dotAll => 's'
  | unicode => 'u'
  | sticky => 'y'

def name : Flag → String
  | global => "global"
  | ignoreCase => "ignoreCase"
  | multiline => "multiline"
  | dotAll => "dotAll"
  | unicode => "unicode"
  | sticky => "sticky"

/-- The place in `all`, from 0. -/
def index (f : Flag) : Nat := all.idxOf f

def ofLetter? (c : Char) : Option Flag := all.find? fun f => f.letter == c

theorem ofLetter?_letter (f : Flag) : ofLetter? f.letter = some f := by
  cases f <;> rfl

theorem letter_of_ofLetter? {c : Char} {f : Flag} (h : ofLetter? c = some f) : f.letter = c := by
  simpa using List.find?_some h

end Flag

/-- Which of the six flags are on. -/
structure FlagSet where
  global : Bool
  ignoreCase : Bool
  multiline : Bool
  dotAll : Bool
  unicode : Bool
  sticky : Bool
deriving DecidableEq

namespace FlagSet

def none : FlagSet := ⟨false, false, false, false, false, false⟩

def has (s : FlagSet) : Flag → Bool
  | .global => s.global
  | .ignoreCase => s.ignoreCase
  | .multiline => s.multiline
  | .dotAll => s.dotAll
  | .unicode => s.unicode
  | .sticky => s.sticky

def insert (s : FlagSet) : Flag → FlagSet
  | .global => { s with global := true }
  | .ignoreCase => { s with ignoreCase := true }
  | .multiline => { s with multiline := true }
  | .dotAll => { s with dotAll := true }
  | .unicode => { s with unicode := true }
  | .sticky => { s with sticky := true }

@[simp] theorem has_none (f : Flag) : none.has f = false := by
  cases f <;> rfl

theorem has_insert (s : FlagSet) (f g : Flag) : (s.insert f).has g = (s.has g || f == g) := by
  cases f <;> cases g <;> simp [insert, has]

theorem eq_of_has {s t : FlagSet} (h : ∀ f, s.has f = t.has f) : s = t := by
  cases s
  cases t
  simpa [has] using And.intro (h .global) ⟨h .ignoreCase, h .multiline, h .dotAll, h .unicode,
    h .sticky⟩

end FlagSet

end RegexLiteral
