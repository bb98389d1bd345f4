import RegexLiteral.Proofs.Grammar
import RegexLiteral.Proofs.RangeEnd

/-!
# Classes read in one pass

What a class is made of is said here by a scan of the items that looks at no parser and at no
derivation. Outside a class a bracket opens one, unless a backslash stands before it, and in a class
the next bare closing bracket ends it (`classesIn`). The body is cut into pieces, and from left to
right two characters with a bare minus between them are a range (`rangesOf`). The classes of a tree
that has been read are those of the scan (`Template.classes_of_parse`).
-/

namespace RegexLiteral

/-! ## The scan -/

/-- A piece of a class body: what it is by itself, and whether it is a minus that can make a range.
-/
structure ClassPiece where
  element : ClassElement
  isMinus : Bool

namespace ClassPiece

/-- The pieces up to the closing bracket. -/
def listOf : List Item → List ClassPiece
  | .char '\\' :: .char code :: rest =>
    (if code = 'w' ∨ code = 'W' then ⟨.wordCharacterSet (.ofCode code), false⟩
      else ⟨.character (.ofCode code), false⟩) :: listOf rest
  | .char ']' :: _ => []
  | .char c :: rest => ⟨.character (.ofChar c), c == '-'⟩ :: listOf rest
  | .node n :: rest =>
    match n.classElement? with
    | some e => ⟨e, false⟩ :: listOf rest
    | none => []
  | _ => []

/-- Two characters with a minus between them are a range, and what is in it is used up. -/
def rangesOf : List ClassPiece → List ClassElement
  | ⟨.character min, _⟩ :: ⟨_, true⟩ :: ⟨.character max, _⟩ :: rest =>
    .range ⟨min, .ofChar .punctuator '-', max⟩ :: rangesOf rest
  | p :: rest => p.element :: rangesOf rest
  | [] => []

end ClassPiece

/-- The class with the body that comes first. -/
def classAhead : List Item → CharacterClass
  | .char '^' :: body => classOf (some (.ofChar .punctuator '^')) body
  | body => classOf none body
where
  classOf (negateToken : Option Token) (body : List Item) : CharacterClass :=
    ⟨(Token.ofChar .punctuator '[').opening ']' .characterClass, negateToken,
      ClassPiece.rangesOf (ClassPiece.listOf body), (Token.ofChar .punctuator ']').balancing⟩

def Atom.classes : Atom → List CharacterClass
  | characterClass c => [c]
  | character _ | wordCharacterSet _ | gap _ => []

def Element.classes : Element → List CharacterClass
  | atom a => a.classes
  | quantifier q => q.atom.classes

def Alternative.classes (a : Alternative) : List CharacterClass :=
  a.elements.flatMap Element.classes

def Pattern.classes (p : Pattern) : List CharacterClass :=
  p.alternatives.flatMap Alternative.classes

/-- The classes in the node, in the order of the source. -/
def Node.classes : Node → List CharacterClass
  | pattern p => p.classes
  | alternative a => a.classes
  | characterClass c => [c]
  | quantifier q => q.atom.classes
  | character _ | characterClassRange _ | flags _ | escapeSequence _ | wordCharacterSet _ | gap _ =>
    []

/-- The classes that begin in the items, which stand inside a class or not. A node has its own. -/
def classesIn : Bool → List Item → List CharacterClass
  | inClass, .char '\\' :: _ :: rest => classesIn inClass rest
  | false, .char '[' :: rest => classAhead rest :: classesIn true rest
  | true, .char ']' :: rest => classesIn false rest
  | inClass, .node n :: rest => n.classes ++ classesIn inClass rest
  | inClass, _ :: rest => classesIn inClass rest
  | _, [] => []

/-! ## The scan of a derivation -/

namespace Written

variable {x : List Item}

namespace ClassAtom

def piece (a : ClassAtom) : ClassPiece := ⟨a.element, a.isMinus⟩

theorem listOf_items (a : ClassAtom) :
    ClassPiece.listOf (a.items ++ x) = a.piece :: ClassPiece.listOf x := by
  cases a with
  | char c hc =>
    simp [items, ClassPiece.listOf, hc.1, hc.2, piece, element, isMinus]
  | pair code =>
    by_cases hw : code = 'w' ∨ code = 'W'
    · have hword : Parser.isWordCode code = true := by simpa [Parser.isWordCode] using hw
      simp [items, ClassPiece.listOf, hw, hword, piece, element, isMinus]
    · have hword : Parser.isWordCode code = false := by simpa [Parser.isWordCode] using hw
      simp [items, ClassPiece.listOf, hw, hword, piece, element, isMinus]
  | node n e he =>
    simp [items, ClassPiece.listOf, he, piece, element, isMinus]

theorem listOf_body (body : List ClassAtom) :
    ClassPiece.listOf (body.flatMap items ++ .char ']' :: x) = body.map piece := by
  induction body with
  | nil => simp [ClassPiece.listOf]
  | cons a body ih => rw [List.flatMap_cons, List.append_assoc, listOf_items, ih, List.map_cons]

theorem rangesOf_pieces (as : List ClassAtom) :
    ClassPiece.rangesOf (as.map piece) = elements as := by
  fun_induction elements as with
  | case1 => rfl
  | case2 a => simp [ClassPiece.rangesOf, piece]
  | case3 a b => simp [ClassPiece.rangesOf, piece]
  | case4 a b c rest min max hmax hminus hmin ih =>
    simp [ClassPiece.rangesOf, piece, element_eq hmin, element_eq hmax, hminus, ih]
  | case5 a b c rest hno ih =>
    rw [List.map_cons, ClassPiece.rangesOf, ih]
    · rfl
    · intro min _ _ max _ _ hmin hrest
      obtain ⟨hb, hrest⟩ := List.cons.inj hrest
      refine hno min max ?_ (congrArg ClassPiece.isMinus hb) ?_
      · rw [character?, show a.element = .character min from congrArg ClassPiece.element hmin]
      · have hmax := congrArg ClassPiece.element (List.cons.inj hrest).1
        rw [character?, show c.element = .character max from hmax]

/-- Only a bare caret that comes first negates a class. -/
theorem classAhead_body (body : List ClassAtom) :
    classAhead (body.flatMap items ++ .char ']' :: x) = charClass body := by
  rcases negation_cases body with ⟨h, rest, rfl⟩ | hnone
  · rw [charClass, negation_caret]
    simp [classAhead, classAhead.classOf, items, listOf_body, rangesOf_pieces]
  · have hbody : classAhead (body.flatMap items ++ .char ']' :: x)
        = classAhead.classOf none (body.flatMap items ++ .char ']' :: x) := by
      rw [classAhead]
      intro rest hcaret
      rcases body with _ | ⟨c | _ | _, body⟩
      · simp at hcaret
      · obtain rfl : c = '^' := Item.char.inj (List.cons.inj hcaret).1
        rw [negation_caret] at hnone
        cases hnone
      · simp [items] at hcaret
      · simp [items] at hcaret
    rw [hbody, charClass, hnone, classAhead.classOf, listOf_body, rangesOf_pieces]

theorem classes_of_classElement? {n : Node} {e : ClassElement} (h : n.classElement? = some e) :
    n.classes = [] := by
  cases n <;> simp only [Node.classElement?, reduceCtorEq] at h <;> rfl

/-- The body of a class is passed over up to its closing bracket. -/
theorem classesIn_body (body : List ClassAtom) :
    classesIn true (body.flatMap items ++ .char ']' :: x) = classesIn false x := by
  induction body with
  | nil => simp [classesIn]
  | cons a body ih =>
    rw [List.flatMap_cons, List.append_assoc]
    cases a with
    | char c hc =>
      rw [← ih]
      simp [items, classesIn, hc.1, hc.2]
    | pair code =>
      rw [← ih]
      simp [items, classesIn]
    | node n e he =>
      rw [← ih]
      simp [items, classesIn, classes_of_classElement? he]

end ClassAtom

/-- A character that neither escapes nor opens a class is passed over. -/
theorem classesIn_char {c : Char} (hslash : c ≠ '\\') (hopen : c ≠ '[') :
    classesIn false (.char c :: x) = classesIn false x := by
  simp [classesIn, hslash, hopen]

theorem classesIn_chars {cs : List Char} (h : ∀ c ∈ cs, c ≠ '\\' ∧ c ≠ '[') :
    classesIn false (cs.map .char ++ x) = classesIn false x := by
  induction cs with
  | nil => rfl
  | cons c cs ih =>
    rw [List.forall_mem_cons] at h
    rw [List.map_cons, List.cons_append, classesIn_char h.1.1 h.1.2, ih h.2]

theorem classes_of_element? {n : Node} {e : RegexLiteral.Element} (h : n.element? = some e) :
    n.classes = e.classes := by
  cases n <;> simp only [Node.element?, Option.some.injEq, reduceCtorEq] at h <;> subst h <;> rfl

theorem Atom.classesIn_items (a : Atom) :
    classesIn false (a.items ++ x) = a.tree.classes ++ classesIn false x := by
  cases a with
  | literal c hc =>
    refine classesIn_char ?_ ?_ <;>
      · rintro rfl
        exact hc (by decide)
  | pair code =>
    have hnone : (tree (.pair code)).classes = [] := by
      rw [tree]
      split
      · rfl
      · split <;> rfl
    rw [hnone]
    simp [items, classesIn]
  | charClass body =>
    rw [items, List.cons_append, List.cons_append, List.append_assoc, List.cons_append,
      List.nil_append, classesIn, ClassAtom.classAhead_body, ClassAtom.classesIn_body]
    rfl
  | node n a hn =>
    have hclasses : n.classes = a.classes := classes_of_element? hn
    simp [items, classesIn, tree, hclasses]

theorem Sigil.classesIn_items (s : Sigil) :
    classesIn false (s.items ++ x) = classesIn false x := by
  have hnumber (n : Number) : ∀ c ∈ n.digits, c ≠ '\\' ∧ c ≠ '[' := fun c hc =>
    ⟨fun h => absurd (n.isDigit_of_mem c hc) (by rw [h]; decide),
      fun h => absurd (n.isDigit_of_mem c hc) (by rw [h]; decide)⟩
  have hchar {c : Char} {y : List Item} (hc : c ∈ ['+', '*', '?', '\x7b', '\x7d', ',']) :
      classesIn false (.char c :: y) = classesIn false y := by
    refine classesIn_char ?_ ?_ <;>
      · rintro rfl
        exact absurd hc (by decide)
  cases s with
  | plus | star | question => exact hchar (by decide)
  | exactly n =>
    simp [items, Number.items, hchar, classesIn_chars (hnumber n)]
  | atLeast n =>
    simp [items, Number.items, hchar, classesIn_chars (hnumber n)]
  | between min max _ =>
    simp [items, Number.items, hchar, classesIn_chars (hnumber min),
      classesIn_chars (hnumber max)]

theorem Element.classesIn_items (e : Element) :
    classesIn false (e.items ++ x) = e.tree.classes ++ classesIn false x := by
  cases e with
  | atom a => exact a.classesIn_items
  | repeated a s =>
    rw [items, List.append_assoc, a.classesIn_items, s.classesIn_items]
    rfl
  | quantifier q => simp [items, classesIn, tree, Node.classes, RegexLiteral.Element.classes]

theorem classesIn_elements (es : List Element) : classesIn false (es.flatMap Element.items ++ x)
    = (es.map Element.tree).flatMap RegexLiteral.Element.classes ++ classesIn false x := by
  induction es with
  | nil => rfl
  | cons e es ih =>
    rw [List.flatMap_cons, List.append_assoc, e.classesIn_items, ih, List.map_cons,
      List.flatMap_cons, List.append_assoc]

theorem Alternative.classesIn_items (a : Alternative) :
    classesIn false (a.items ++ x) = a.tree.classes ++ classesIn false x :=
  classesIn_elements a.elements

theorem Flags.classesIn_items (f : Flags) : classesIn false f.items = [] := by
  cases f with
  | letters fs _ =>
    have hletters : ∀ c ∈ fs.map Flag.letter, c ≠ '\\' ∧ c ≠ '[' := by
      intro c hc
      obtain ⟨f, -, rfl⟩ := List.mem_map.1 hc
      cases f <;> decide
    have h := classesIn_chars (x := []) hletters
    rwa [List.append_nil, List.map_map] at h
  | node f => simp [items, classesIn, Node.classes]

theorem Pattern.classesIn_items (p : Pattern) : classesIn false p.items = p.tree.classes := by
  have hrest (as : List Alternative) (y : List Item) :
      classesIn false (as.flatMap (fun a => .char '|' :: a.items) ++ y)
        = (as.map Alternative.tree).flatMap RegexLiteral.Alternative.classes
          ++ classesIn false y := by
    induction as with
    | nil => rfl
    | cons a as ih =>
      rw [List.flatMap_cons, List.cons_append, List.cons_append, List.append_assoc,
        classesIn_char (by decide) (by decide), a.classesIn_items, ih, List.map_cons,
        List.flatMap_cons, List.append_assoc]
  have htrees : p.tree.alternatives = p.first.tree :: p.rest.map Alternative.tree := by
    simp [tree, RegexLiteral.Pattern.alternatives]
  rw [items, List.cons_append, List.cons_append, List.append_assoc,
    classesIn_char (by decide) (by decide), p.first.classesIn_items, hrest,
    classesIn_char (by decide) (by decide), p.flags.classesIn_items, List.append_nil,
    RegexLiteral.Pattern.classes, htrees, List.flatMap_cons]

end Written

theorem Written.classesIn_items (w : Written) : classesIn false w.items = w.tree.classes := by
  cases w with
  | pattern p => exact p.classesIn_items
  | flags f => exact f.classesIn_items

namespace Template

/-- The classes of a tree that has been read are those that the scan finds. And that a range does
not end in a character is never an error. -/
theorem classes_of_parse (t : Template) (production : Production) (fuel : Option Nat) :
    (∀ n, t.parse production fuel = .ok n →
      n.classes = classesIn false (itemsOf t.lexemes t.substitutions))
    ∧ ∀ e, t.parse production fuel = .error (.error e) →
      ∀ found, e.cause ≠ .notARangeEnd found := by
  refine ⟨fun n h => ?_, fun e h => cause_ne_notARangeEnd h⟩
  obtain ⟨w, -, hd, -, rfl⟩ := parse_eq_ok_iff.1 h
  rw [hd.items, w.classesIn_items]

/-- A minus behind a minus ends a range, one before a word set is a character, and a class that is
not closed is an error, but not that of a range. -/
theorem classes_of_parse_samples :
    (∃ n, (ofText "/[a--z-\\w]/").parse .pattern none = .ok n
      ∧ n.classes.map CharacterClass.elements
        = [[.range ⟨.ofChar 'a', .ofChar .punctuator '-', .ofChar '-'⟩, .character (.ofChar 'z'),
          .character (.ofChar '-'), .wordCharacterSet (.ofCode 'w')]])
    ∧ ∃ e, (ofText "/[a-").parse .pattern none = .error (.error e)
      ∧ ∀ found, e.cause ≠ .notARangeEnd found := by
  constructor
  · obtain ⟨n, hn⟩ : ∃ n, (ofText "/[a--z-\\w]/").parse .pattern none = .ok n :=
      exists_of_isOk (by decide +kernel)
    refine ⟨n, hn, ?_⟩
    rw [(classes_of_parse _ _ _).1 n hn]
    decide +kernel
  · have herror : (ofText "/[a-").parse .pattern none
        = .error (.error ⟨.unclosedClass, ⟨4, 4⟩, [⟨⟨1, 2⟩, .classOpened⟩]⟩) := by decide +kernel
    exact ⟨_, herror, (classes_of_parse _ _ _).2 _ herror⟩

end Template

end RegexLiteral
