/-!
# JSON values

A number that is a natural number written as such is kept as its value. Any other number, such as
one with a sign or a fraction, is kept as it was written, since no value in a tree is of that form.
An object is a list of members, and a key stands for its first member.
-/

namespace RegexLiteral

inductive Json
  | null
  | bool (b : Bool)
  | number (n : Nat)
  | otherNumber (text : String)
  | string (s : String)
  | array (items : List Json)
  | object (members : List (String × Json))

namespace Json

/-- An object of one member. -/
def variant (name : String) (content : Json) : Json := object [(name, content)]

def ofChar (c : Char) : Json := string (String.singleton c)

def ofList (f : α → Json) (as : List α) : Json := array (as.map f)

def ofOption (f : α → Json) : Option α → Json
  | none => null
  | some a => f a

/-- The member that `key` stands for. -/
def member? (members : List (String × Json)) (key : String) : Option Json := members.lookup key

theorem sizeOf_lt_of_member? {members : List (String × Json)} {key : String} {j : Json}
    (h : member? members key = some j) : sizeOf j < sizeOf members := by
  induction members with
  | nil => simp [member?] at h
  | cons m ms ih =>
    obtain ⟨k, v⟩ := m
    simp only [member?, List.lookup_cons] at h
    split at h
    · cases h
      simp
      omega
    · have := ih h
      simp
      omega

end Json

end RegexLiteral
