/-!
# Control sequences of a terminal

A text that goes to a terminal can hold sequences that select colors and the like: an escape
character and a bracket, then parameters, then intermediate characters, and one character that
ends the sequence. The three kinds of characters lie next to each other in ASCII and have none in
common, so a sequence can be read in one way only. A text that goes elsewhere is written without
its sequences.
-/

set_option autoImplicit false

namespace CLexer.Text

/-- The characters of the parameters of a control sequence, from `0` to the question mark. -/
def isParameter (c : Char) : Bool := '0' ≤ c && c ≤ '?'

/-- The characters between the parameters and the end of a control sequence, from the space to
the slash. -/
def isIntermediate (c : Char) : Bool := ' ' ≤ c && c ≤ '/'

/-- The characters that end a control sequence, from the at sign to the tilde. -/
def isSequenceEnd (c : Char) : Bool := '@' ≤ c && c ≤ '~'

/-- How many characters the control sequence has of which `rest` is what stands behind the
bracket; none if it does not end. -/
def sequenceLengthAfter (rest : List Char) : Nat :=
  let parameters := rest.takeWhile isParameter
  let behind := rest.dropWhile isParameter
  match behind.dropWhile isIntermediate with
  | c :: _ =>
      if isSequenceEnd c then
        parameters.length + (behind.takeWhile isIntermediate).length + 3
      else 0
  | [] => 0

/-- How many characters the control sequence at the start of a text has; none if the text does
not start with one. -/
def sequenceLength : List Char → Nat
  | '\x1b' :: '[' :: rest => sequenceLengthAfter rest
  | _ => 0

/-- A text without control sequences, of which the first `skip` characters are left out too. -/
def dropSequences : Nat → List Char → List Char
  | _, [] => []
  | skip + 1, _ :: rest => dropSequences skip rest
  | 0, c :: rest =>
      match sequenceLength (c :: rest) with
      | 0 => c :: dropSequences 0 rest
      | n + 1 => dropSequences n rest

/-- A text without its control sequences. What is left may form new ones, and these stay. -/
def withoutSequences (s : String) : String := String.ofList (dropSequences 0 s.toList)

/-- Only an escape character starts a control sequence. -/
theorem sequenceLength_eq_zero {c : Char} (h : c ≠ '\x1b') (rest : List Char) :
    sequenceLength (c :: rest) = 0 := by
  unfold sequenceLength
  split
  · rename_i heq
    cases heq
    exact absurd rfl h
  · rfl

/-- A text that has no escape character is kept as it is. -/
theorem dropSequences_eq_self {cs : List Char} (h : '\x1b' ∉ cs) : dropSequences 0 cs = cs := by
  induction cs with
  | nil => rfl
  | cons c rest ih =>
    rw [List.mem_cons, not_or] at h
    simp only [dropSequences, sequenceLength_eq_zero (Ne.symm h.1), ih h.2]

end CLexer.Text
