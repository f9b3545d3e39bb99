import CLexer.Problem

/-!
# Cursors

A cursor stands between the characters of a text that are read and those that are not. It reads
one character at a time and knows the position of the last one. A bounded number of characters
can be given back; the cursor then stands where it stood before it read them.

Three things cannot be given back: a line feed, more characters than the depth of the cursor
allows, and anything at all once the end of the text has been seen.
-/

set_option autoImplicit false

namespace CLexer

/-- A character that was read, with the place in front of it. -/
structure Mark where
  char : Char
  before : Place
deriving DecidableEq

/-- A reading position in a text. -/
structure Cursor where
  /-- The characters that are not read, those that were given back among them. -/
  ahead : List Char
  /-- The name of the text. -/
  source : String := "<input>"
  /-- The characters that can still be given back, the last one read first. -/
  trail : List Mark := []
  /-- How many of the characters ahead were given back. -/
  returned : Nat := 0
  /-- Where the cursor stands. -/
  place : Place := {}
  /-- Has the end of the text been seen? -/
  ended : Bool := false
  /-- How many characters can be given back in a row. -/
  depth : Nat := 1
  depth_pos : 0 < depth := by decide

namespace Cursor

/-- Why a character cannot be given back. -/
inductive PushbackCause where
  /-- Characters were given back, and no more can be. -/
  | depthExhausted (depth : Nat)
  /-- The end of the text has been seen. -/
  | pastEnd
  /-- No character has been read. -/
  | nothingRead
  /-- The character is a line feed. -/
  | lineFeed
deriving DecidableEq

def PushbackCause.message : PushbackCause → String
  | .depthExhausted depth => "pushback depth of " ++ toString depth ++ " exhausted"
  | .pastEnd => "cannot push back past end of input"
  | .nothingRead => "nothing to push back"
  | .lineFeed => "cannot push back a newline"

/-- What can be done about the cause. -/
def PushbackCause.hint : PushbackCause → Option String
  | .depthExhausted _ => some "call next() before pushing back again"
  | .lineFeed => some "newlines are consumed as whitespace"
  | .pastEnd => none
  | .nothingRead => none

/-- The problem that a failed attempt to give a character back amounts to. -/
def PushbackCause.problem (cause : PushbackCause) (location : Location) : Problem where
  message := cause.message
  location := some location
  hint := cause.hint

/-- What is said of a depth that allows no character to be given back. -/
def depthMessage : String := "max_pushback must be at least 1"

/-- A cursor at the start of a text, unless the depth allows no character to be given back. -/
def open? (text : List Char) (depth : Int) (source : String := "<input>") : Option Cursor :=
  if h : 1 ≤ depth then
    some { ahead := text, source, depth := depth.toNat, depth_pos := by omega }
  else none

/-- The position of the last character read. -/
def position (cur : Cursor) : Position := cur.place.position

/-- The position with the name of the text. -/
def location (cur : Cursor) : Location := ⟨cur.source, cur.position⟩

/-- Reads one character, or sees the end of the text. -/
def next (cur : Cursor) : Option Char × Cursor :=
  match cur.ahead with
  | [] => (none, { cur with trail := [], ended := true })
  | c :: rest =>
      (some c,
        { cur with
          ahead := rest
          trail := (⟨c, cur.place⟩ :: cur.trail).take cur.depth
          returned := cur.returned - 1
          place := cur.place.step c })

/-- Why nothing can be given back when no mark is left. -/
def blockedCause (cur : Cursor) : PushbackCause :=
  if 0 < cur.returned then .depthExhausted cur.depth
  else if cur.ended then .pastEnd
  else .nothingRead

/-- Gives the last character back. -/
def pushback (cur : Cursor) : Except PushbackCause Cursor :=
  match cur.trail with
  | [] => .error cur.blockedCause
  | m :: older =>
      if m.char = '\n' then .error .lineFeed
      else
        .ok { cur with
          ahead := m.char :: cur.ahead
          trail := older
          returned := cur.returned + 1
          place := m.before }

/-- Reads up to `n` characters. The end of the text is not looked for. -/
def advance (cur : Cursor) : Nat → Cursor
  | 0 => cur
  | n + 1 =>
      match cur.ahead with
      | [] => cur
      | _ :: _ => cur.next.2.advance n

/-- Reads everything up to the end of the text, and sees the end. -/
def drain (cur : Cursor) : List Char × Cursor :=
  (cur.ahead, (cur.advance cur.ahead.length).next.2)

theorem fst_next (cur : Cursor) : cur.next.1 = cur.ahead.head? := by
  unfold next
  split <;> simp_all

@[simp] theorem ahead_next (cur : Cursor) : cur.next.2.ahead = cur.ahead.tail := by
  unfold next
  split <;> simp_all

@[simp] theorem ahead_advance (cur : Cursor) (n : Nat) :
    (cur.advance n).ahead = cur.ahead.drop n := by
  induction n generalizing cur with
  | zero => rfl
  | succ n ih =>
    unfold advance
    split
    · simp_all
    · simp_all

theorem next_eq_none_iff {cur : Cursor} : cur.next.1 = none ↔ cur.ahead = [] := by
  unfold next
  split <;> simp_all

theorem ahead_pushback {cur cur' : Cursor} (h : cur.pushback = .ok cur') :
    ∃ m older, cur.trail = m :: older ∧ cur'.ahead = m.char :: cur.ahead := by
  unfold pushback at h
  split at h
  · cases h
  · split at h
    · cases h
    · cases h
      exact ⟨_, _, by assumption, rfl⟩

end Cursor

end CLexer
