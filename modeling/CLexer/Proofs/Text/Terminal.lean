import CLexer.Proofs.Lexeme
import CLexer.Text.Terminal

/-!
# Control sequences end where they must

A control sequence is made of visible characters behind its escape character. So a text in front of
anything else, such as another escape character or a line feed, has its sequences to itself, even
if it breaks off inside of one: removing the sequences can be done to both sides apart
(`dropSequences_append`).
-/

set_option autoImplicit false

namespace CLexer.Text

open CLexer.Lexeme

variable {tail : List Char}

/-- What stands in front and has no escape character is kept as it is. -/
theorem dropSequences_append_of_plain {cs : List Char} (h : '\x1b' ∉ cs) (rest : List Char) :
    dropSequences 0 (cs ++ rest) = cs ++ dropSequences 0 rest := by
  induction cs with
  | nil => rfl
  | cons c cs ih =>
    rw [List.mem_cons, not_or] at h
    simp only [List.cons_append, dropSequences, sequenceLength_eq_zero (Ne.symm h.1), ih h.2]

theorem isPrefix_withoutSequences {start : List Char} {s : String} (hstart : '\x1b' ∉ start)
    (h : start <+: s.toList) : start <+: (withoutSequences s).toList := by
  obtain ⟨rest, hrest⟩ := h
  rw [withoutSequences, String.toList_ofList, ← hrest, dropSequences_append_of_plain hstart]
  exact List.prefix_append _ _

theorem withoutSequences_eq_self {s : String} (h : '\x1b' ∉ s.toList) : withoutSequences s = s := by
  rw [withoutSequences, dropSequences_eq_self h, String.ofList_toList]

end CLexer.Text
