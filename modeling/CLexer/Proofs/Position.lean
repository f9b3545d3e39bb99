import CLexer.Position
import Mathlib.Data.List.Induction

/-!
# Positions, counted in the text

A cursor finds its row and column by stepping over one character after another, and a line feed
shows only in the step behind it. The reader of a position counts instead: the line feeds in front
of a character give its row, and the characters since the last of them its column.

The two agree (`position_step_steps`), and that is the one fact here. Everything said about the
position of a token or of a cursor goes through it.
-/

set_option autoImplicit false

namespace CLexer

/-- How many characters there are up to the last line feed, that one included. -/
def throughLastBreak (cs : List Char) : Nat := (cs.reverse.dropWhile (· ≠ '\n')).length

/-- The position of the character that follows `cs` in a text that starts with `cs`. -/
def positionAfter (cs : List Char) : Position where
  row := 1 + (cs.count '\n' : Nat)
  column := cs.length + 1 - throughLastBreak cs

/-- The position of the character at an index of a text. -/
def positionAt (text : List Char) (i : Nat) : Position := positionAfter (text.take i)

theorem throughLastBreak_concat (cs : List Char) (c : Char) :
    throughLastBreak (cs ++ [c]) = if c = '\n' then cs.length + 1 else throughLastBreak cs := by
  unfold throughLastBreak
  by_cases hc : c = '\n'
  · simp [hc]
  · simp [hc]

theorem positionAfter_concat_break (cs : List Char) :
    positionAfter (cs ++ ['\n']) = ⟨(positionAfter cs).row + 1, 1⟩ := by
  simp only [positionAfter, throughLastBreak_concat, List.count_append, List.length_append,
    List.count_singleton_self, List.length_singleton, if_true, Position.mk.injEq]
  omega

theorem positionAfter_concat {c : Char} (hc : c ≠ '\n') (cs : List Char) :
    positionAfter (cs ++ [c]) = ⟨(positionAfter cs).row, (positionAfter cs).column + 1⟩ := by
  have hcount : [c].count '\n' = 0 := List.count_singleton.trans (if_neg (by simpa using hc))
  simp only [positionAfter, throughLastBreak_concat, List.count_append, List.length_append, hcount,
    List.length_singleton, if_neg hc, Position.mk.injEq]
  omega

/-- **Stepping is counting.** The place behind `cs` gives the next character, whatever it is, the
position that counting in `cs` gives it. -/
theorem position_step_steps (cs : List Char) (c : Char) :
    ((({} : Place).steps cs).step c).position = positionAfter cs := by
  induction cs using List.reverseRecOn generalizing c with
  | nil => rfl
  | append_singleton cs d ih =>
    -- The step over `d` leaves the position of `d` and remembers whether `d` is a line feed.
    have hd := ih d
    rw [Place.steps_append, Place.steps_cons, Place.steps_nil]
    generalize ({} : Place).steps cs = p at hd
    by_cases hbreak : d = '\n'
    · subst hbreak
      rw [positionAfter_concat_break, ← hd]
      rfl
    · rw [positionAfter_concat hbreak, ← hd]
      simp [Place.step, hbreak]

end CLexer
