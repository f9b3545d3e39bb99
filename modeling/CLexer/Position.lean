/-!
# Positions in a text

A position is the row and the column of a character. Both are plain integers: a position that is
handed in from outside need not lie in any text.

A `Place` is a point between two characters of a text. Reading a character moves the place over
it, and a line feed shows only in the step after it: the character that follows a line feed is
the first of the next row.
-/

set_option autoImplicit false

namespace CLexer

structure Position where
  row : Int
  column : Int
deriving DecidableEq

/-- A position in a named text. -/
structure Location where
  source : String
  position : Position
deriving DecidableEq

/-- The location as it stands in front of a message. -/
def Location.render (l : Location) : String :=
  l.source ++ ":" ++ toString l.position.row ++ ":" ++ toString l.position.column

/-- A point between two characters of a text. -/
structure Place where
  /-- The position of the character before this point; row 1, column 0 at the start. -/
  position : Position := ⟨1, 0⟩
  /-- Is the character before this point a line feed? -/
  afterBreak : Bool := false
deriving DecidableEq

/-- The place behind one more character. -/
def Place.step (p : Place) (c : Char) : Place where
  position :=
    if p.afterBreak then ⟨p.position.row + 1, 1⟩
    else ⟨p.position.row, p.position.column + 1⟩
  afterBreak := c == '\n'

/-- The place behind a list of characters. -/
def Place.steps (p : Place) (cs : List Char) : Place := cs.foldl Place.step p

@[simp] theorem Place.steps_nil (p : Place) : p.steps [] = p := rfl

@[simp] theorem Place.steps_cons (p : Place) (c : Char) (cs : List Char) :
    p.steps (c :: cs) = (p.step c).steps cs := rfl

theorem Place.steps_append (p : Place) (xs ys : List Char) :
    p.steps (xs ++ ys) = (p.steps xs).steps ys := by
  simp [Place.steps, List.foldl_append]

end CLexer
