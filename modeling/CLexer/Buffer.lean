import CLexer.Text.Quoted

/-!
# Buffers

A buffer holds the characters of the lexeme that is being read. It has room for a number of
characters, its capacity, and doubles the room when it is full. With a limit set the room never
grows past the limit, and a character that would need more room is refused.

Emptying a buffer keeps its capacity.
-/

set_option autoImplicit false

namespace CLexer

/-- The characters of a lexeme, with the room there is for them. -/
structure Buffer where
  chars : Array Char := #[]
  capacity : Nat
  limit : Option Nat := none
deriving DecidableEq

namespace Buffer

/-- Why a buffer cannot be made. -/
inductive SizeError where
  | capacity
  | limit
deriving DecidableEq

def SizeError.message : SizeError → String
  | .capacity => "capacity must be positive"
  | .limit => "max_size must be positive"

/-- The capacity is full and the limit forbids more room. -/
structure Overflow where
  limit : Nat
deriving DecidableEq

/-- An empty buffer. Its capacity does not exceed its limit. -/
def empty (capacity : Nat) (limit : Option Nat) : Buffer where
  capacity := match limit with
    | some l => min capacity l
    | none => capacity
  limit := limit

/-- An empty buffer with room and limit given as integers, which have to be positive. -/
def make (capacity : Int) (limit : Option Int) : Except SizeError Buffer :=
  if capacity < 1 then .error .capacity
  else
    match limit with
    | none => .ok (empty capacity.toNat none)
    | some l => if l < 1 then .error .limit else .ok (empty capacity.toNat (some l.toNat))

def size (b : Buffer) : Nat := b.chars.size

def text (b : Buffer) : String := String.ofList b.chars.toList

/-- Forgets the characters and keeps the room. -/
def reset (b : Buffer) : Buffer := { b with chars := #[] }

/-- Is there no room for another character, and none to be had? -/
def isFull (b : Buffer) : Bool :=
  match b.limit with
  | none => false
  | some l => decide (b.capacity ≤ b.size) && decide (l ≤ b.capacity)

/-- The room there is once another character is in: twice the room if it was used up, or as much
of that as the limit allows. -/
def room (b : Buffer) : Nat :=
  if b.size < b.capacity then b.capacity
  else
    match b.limit with
    | none => b.capacity * 2
    | some l => min (b.capacity * 2) l

/-- The buffer with a character more at its end, if it is not full. -/
def push (b : Buffer) (c : Char) : Buffer :=
  let room := b.room
  match b with
  | ⟨chars, _, limit⟩ => ⟨chars.push c, room, limit⟩

def overflow (b : Buffer) : Overflow := ⟨b.limit.getD 0⟩

/-- Adds a character at the end, and room for it if there is none. -/
def tryPush (b : Buffer) (c : Char) : Except Overflow Buffer :=
  if b.isFull then .error b.overflow else .ok (b.push c)

/-- Adds a character only while there are fewer than `most`, and says whether it was added. -/
def tryPushBelow (b : Buffer) (c : Char) (most : Int) : Except Overflow (Bool × Buffer) :=
  if most ≤ (b.size : Int) then .ok (false, b)
  else (b.tryPush c).map (fun b' => (true, b'))

/-- Adds characters up to the first one that finds the buffer full. What is left over starts with
that one. -/
def fill (b : Buffer) : List Char → Buffer × List Char
  | [] => (b, [])
  | c :: cs => if b.isFull then (b, c :: cs) else (b.push c).fill cs

/-- The capacities before and after a change. -/
structure Growth where
  before : Nat
  after : Nat
deriving DecidableEq

/-- The change of capacity that another character brings, if it brings one. -/
def growth? (b : Buffer) : Option Growth :=
  if b.capacity = b.room then none else some ⟨b.capacity, b.room⟩

/-- The changes of capacity while characters are added. -/
def growths (b : Buffer) : List Char → List Growth
  | [] => []
  | c :: cs => if b.isFull then [] else b.growth?.toList ++ (b.push c).growths cs

/-- The character at an index; a negative index counts from the end. -/
def get? (b : Buffer) (i : Int) : Option Char :=
  let k := if i < 0 then i + (b.size : Int) else i
  if k < 0 then none else b.chars[k.toNat]?

/-- The buffer with its text in quotes. -/
def describe (b : Buffer) : String :=
  "ScanBuffer(" ++ Text.quote b.text ++ ", capacity=" ++ toString b.capacity ++ ")"

end Buffer

end CLexer
