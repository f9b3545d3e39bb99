import CLexer.Proofs.Outcome
import Mathlib.Data.List.Forall2

/-!
# Tokens are slices of their text

A token has the text that stands in the scanned text, and stands there where it says it does. Tokens do
not overlap and come in the order of the text. `Slices` carries all of this along a scan, from where a
list of tokens may begin to where it has to end, so that lists that follow each other can be joined.

Two tokens of one turn are the only ones whose places have to be looked at together: the second of two
dots starts one column behind the first, because a dot is no line feed. All other tokens stand at the
front of their turn.
-/

set_option autoImplicit false

namespace CLexer

/-! ## Slices -/

/-- The token is what stands in the text at the offset, and its position is the position there. -/
structure SliceAt (text : List Char) (t : Token) (o : Nat) : Prop where
  chars : (text.drop o).take t.text.length = t.text.toList
  row : t.position.row = 1 + ((text.take o).count '\n' : Nat)
  column : t.position.column = (o : Int) + 1 - throughLastBreak (text.take o)

/-- A token that stands behind `pre` and has its position there is a slice. -/
theorem sliceAt_of_append {text pre : List Char} {t : Token} (post : List Char)
    (htext : text = pre ++ (t.text.toList ++ post)) (hposition : t.position = positionAfter pre) :
    SliceAt text t pre.length where
  chars := by rw [htext, List.drop_left, ← String.length_toList, List.take_left]
  row := by rw [hposition, htext, List.take_left]; rfl
  column := by rw [hposition, htext, List.take_left]; rfl

/-- The tokens are slices of the text, one behind the other, between two offsets. -/
inductive Slices (text : List Char) : Nat → Nat → List Token → Prop
  | nil {lo hi : Nat} (hle : lo ≤ hi) : Slices text lo hi []
  | cons {lo o hi : Nat} {t : Token} {ts : List Token} (hlo : lo ≤ o) (hslice : SliceAt text t o)
      (hrest : Slices text (o + t.text.length) hi ts) : Slices text lo hi (t :: ts)

namespace Slices

variable {text : List Char} {lo lo' mid hi : Nat} {ts ts' : List Token}

theorem mono (hle : lo' ≤ lo) (h : Slices text lo hi ts) : Slices text lo' hi ts := by
  cases h with
  | nil hhi => exact .nil (Nat.le_trans hle hhi)
  | cons hlo hslice hrest => exact .cons (Nat.le_trans hle hlo) hslice hrest

theorem append (h : Slices text lo mid ts) (h' : Slices text mid hi ts') :
    Slices text lo hi (ts ++ ts') := by
  induction h with
  | nil hle => exact h'.mono hle
  | cons hlo hslice _ ih => exact .cons hlo hslice (ih h')

theorem le (h : Slices text lo hi ts) : lo ≤ hi := by
  induction h with
  | nil hle => exact hle
  | cons hlo _ _ ih => omega

theorem of_isPrefix (hstart : ts' <+: ts) (h : Slices text lo hi ts) : Slices text lo hi ts' := by
  induction h generalizing ts' with
  | nil hle =>
    rw [List.prefix_nil.mp hstart]
    exact .nil hle
  | cons hlo hslice hrest ih =>
    cases ts' with
    | nil => exact .nil (Slices.le (.cons hlo hslice hrest))
    | cons t ts' =>
      obtain ⟨rfl, hmore⟩ := List.cons_prefix_cons.mp hstart
      exact .cons hlo hslice (ih hmore)

/-- The offsets of the tokens, with the bounds between them. -/
theorem exists_offsets (h : Slices text lo hi ts) :
    ∃ offsets : List Nat, List.Forall₂ (SliceAt text) ts offsets ∧ (∀ o ∈ offsets, lo ≤ o) ∧
      (ts.zip offsets).Pairwise fun a b => a.2 + a.1.text.length ≤ b.2 := by
  induction h with
  | nil => exact ⟨[], .nil, by simp, .nil⟩
  | @cons lo o hi t ts hlo hslice _ ih =>
    obtain ⟨offsets, hslices, hbound, hpairwise⟩ := ih
    refine ⟨o :: offsets, .cons hslice hslices, fun o' ho' => ?_, .cons ?_ hpairwise⟩
    · rcases List.mem_cons.mp ho' with rfl | ho'
      · exact hlo
      · have := hbound o' ho'
        omega
    · intro b hb
      exact hbound b.2 (List.of_mem_zip hb).2

end Slices

/-! ## Turns -/

namespace Turn

variable {tables : Tables} {options : Options} {t : Turn}

theorem position_of_first {start : Position} {cuts : List Cut} {first : Token} {ts : List Token}
    (h : Cut.tokens start cuts = first :: ts) : first.position = start := by
  cases cuts with
  | nil => cases h
  | cons k ks =>
    cases h
    rfl

theorem position_of_second {start : Position} {cuts : List Cut} {first second : Token}
    {ts : List Token} (h : Cut.tokens start cuts = first :: second :: ts) :
    second.position = ⟨start.row, start.column + first.text.length⟩ := by
  cases cuts with
  | nil => cases h
  | cons k ks =>
    obtain ⟨rfl, hrest⟩ := List.cons.inj h
    rw [position_of_first hrest, length_token]

/-- Two dots at the front of a turn are slices: a dot is no line feed, so the second is one column
behind the first. -/
theorem slices_of_dots {text pre post : List Char} {hi : Nat} {first second : Token}
    (hfirst : first.text = ".") (hsecond : second.text = ".")
    (htext : text = pre ++ '.' :: '.' :: post) (hposition : first.position = positionAfter pre)
    (hbehind : second.position =
      ⟨(positionAfter pre).row, (positionAfter pre).column + first.text.length⟩)
    (hhi : pre.length + 2 ≤ hi) : Slices text pre.length hi [first, second] := by
  have hone : first.text.length = 1 := by rw [hfirst]; decide
  have hone' : second.text.length = 1 := by rw [hsecond]; decide
  have hslice : SliceAt text first pre.length :=
    sliceAt_of_append ('.' :: post) (by rw [htext, hfirst]; rfl) hposition
  have hnext : second.position = positionAfter (pre ++ ['.']) := by
    rw [hbehind, hone, positionAfter_concat (by decide)]
    rfl
  have hslice' : SliceAt text second (pre ++ ['.']).length :=
    sliceAt_of_append post (by rw [htext, hsecond, List.append_assoc]; rfl) hnext
  rw [List.length_append, List.length_singleton] at hslice'
  refine .cons (Nat.le_refl _) hslice (.cons ?_ hslice' (.nil ?_))
  · omega
  · omega

/-- **The tokens of a turn are slices of what it reads.** -/
theorem Obeys.slices {text : List Char} (h : t.Obeys tables options)
    (htext : text = t.before ++ (t.segment ++ t.behind)) :
    Slices text t.before.length (t.before.length + t.segment.length) t.tokens := by
  have hnone : t.tokens = [] →
      Slices text t.before.length (t.before.length + t.segment.length) t.tokens := by
    intro htokens
    rw [htokens]
    exact .nil (Nat.le_add_right _ _)
  obtain ⟨o, ho⟩ := h.exists_outcome
  obtain ⟨c, rest, htakes⟩ := h
  cases o with
  | blank => exact hnone ho.tokens
  | rejected => exact hnone ho.tokens
  | comment => exact hnone ho.tokens
  | emitted =>
    obtain ⟨dropped, feed, hsegment, -, -⟩ := ho.segment
    have hplaces := htakes.tokens
    -- Whatever is dropped or fed comes behind the tokens, so they are at the front of the segment.
    rcases ho.tokens with ⟨token, htokens⟩ | ⟨first, second, htokens, hfirst, hsecond⟩
    · rw [htokens] at hsegment hplaces ⊢
      rw [List.flatMap_singleton, List.append_assoc] at hsegment
      rw [hsegment] at htext ⊢
      rw [List.append_assoc] at htext
      refine .cons (Nat.le_refl _) (sliceAt_of_append _ htext ?_) (.nil ?_)
      · exact position_of_first hplaces.symm
      · rw [List.length_append, String.length_toList]
        omega
    · rw [htokens] at hsegment hplaces ⊢
      have hdots : t.segment = '.' :: '.' :: (dropped ++ feed) := by
        simpa [hfirst, hsecond] using hsegment
      rw [hdots] at htext ⊢
      refine slices_of_dots hfirst hsecond htext ?_ ?_ ?_
      · exact position_of_first hplaces.symm
      · exact position_of_second hplaces.symm
      · simp

end Turn

/-! ## Scans -/

/-- The tokens of all the turns are slices, from where the loop starts to the end. -/
theorem Context.Turns.slices {tables : Tables} {options : Options} {text before : List Char}
    {ctx last : Context} {turns : List Turn} (h : Context.Turns before ctx turns last)
    (htext : text = before ++ ctx.unread) (hobeys : ∀ t ∈ turns, t.Obeys tables options) :
    Slices text before.length text.length (turns.flatMap (·.tokens)) := by
  induction h with
  | done =>
    refine .nil ?_
    rw [htext, List.length_append]
    omega
  | turn hstep hread hturns ih =>
    rw [hread] at htext
    have hfirst := (hobeys _ List.mem_cons_self).slices htext
    have hrest := ih (by rw [htext, List.append_assoc]) fun t ht =>
      hobeys t (List.mem_cons_of_mem _ ht)
    rw [List.length_append] at hrest
    exact hfirst.append hrest

/-- **Tokens are slices of their text, in order and disjoint, and stand where they say.** Whatever the
tables, the options and the sinks, and also for an input that breaks off: there is an offset for each
token at which it is found in the text, at which counting gives its row and its column, and behind
which it ends before the next one begins. -/
theorem tokens_are_slices (input : Input) (tables : Tables) (options : Options) (chain : Chain)
    (source : String) :
    let tokens := (scanInput input tables options chain source).tokens
    ∃ offsets : List Nat, List.Forall₂ (SliceAt input.chars) tokens offsets ∧
      (tokens.zip offsets).Pairwise fun a b => a.2 + a.1.text.length ≤ b.2 := by
  intro tokens
  obtain ⟨turns, told⟩ := Context.exists_told_ofText input.chars tables options source
  have hslices := told.loop.slices rfl told.obeys
  rw [← told.tokens, ← (Context.scan_eq _).1] at hslices
  -- The sinks only cut the scan short, and a start of the tokens is enough.
  have hstart := (scanInput_events_isPrefix input tables options chain source).filterMap Event.token?
  obtain ⟨offsets, hall, -, hpairwise⟩ := (hslices.of_isPrefix hstart).exists_offsets
  exact ⟨offsets, hall, hpairwise⟩

end CLexer
