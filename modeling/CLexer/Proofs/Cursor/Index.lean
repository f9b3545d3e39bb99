import CLexer.Proofs.Cursor.Reading
import CLexer.Proofs.Position

/-!
# A cursor is an index

Whoever calls a cursor sees answers only: characters, the end of the text, a character that was
given back, a refusal. From the answers alone one can count where the cursor must stand: one further
for each character that was read, one back for each that was given back. This file says that the
count is all there is to know. After any calls whatever, the index decides what is read next, it
decides the position, and together with the furthest index so far and with whether the end was seen
it decides whether a character can be given back.

The cursor does not hold an index. It holds a trail of marks that is cut off at its depth, a number
of characters given back, and a flag. What ties them to the index is `Stands`: before the end is
seen, the marks and the characters given back make up `min depth furthest` together.
-/

set_option autoImplicit false

namespace CLexer

namespace Cursor

/-! ## Calls and what their answers tell -/

inductive Call where
  | next
  | pushback
deriving DecidableEq

inductive Answer where
  /-- The character that was read; there is none at the end of the text. -/
  | read (c : Option Char)
  | returned
  | refused (cause : PushbackCause)
deriving DecidableEq

/-- Makes a call. A refused one leaves the cursor as it is. -/
def call (cur : Cursor) : Call → Answer × Cursor
  | .next => (.read cur.next.1, cur.next.2)
  | .pushback =>
      match cur.pushback with
      | .ok cur' => (.returned, cur')
      | .error cause => (.refused cause, cur)

def calls (cur : Cursor) : List Call → List Answer × Cursor
  | [] => ([], cur)
  | k :: ks =>
      let (a, cur') := cur.call k
      let (as, last) := cur'.calls ks
      (a :: as, last)

/-- The answers to `n` calls that read. -/
def readAnswers (cur : Cursor) (n : Nat) : List Answer := (cur.calls (List.replicate n .next)).1

/-- What can be counted in answers. -/
structure Tally where
  /-- The characters that were read, less those that were given back. -/
  index : Int := 0
  /-- The largest index so far. -/
  furthest : Int := 0
  /-- Was the end of the text an answer? -/
  endSeen : Bool := false
deriving DecidableEq

def Tally.count (t : Tally) : Answer → Tally
  | .read (some _) => { t with index := t.index + 1, furthest := max t.furthest (t.index + 1) }
  | .read none => { t with endSeen := true }
  | .returned => { t with index := t.index - 1 }
  | .refused _ => t

def Tally.ofAnswers (as : List Answer) : Tally := as.foldl Tally.count {}

/-! ## Where a cursor stands -/

/-- The marks are those of the characters in front of index `i`, the last of them first. -/
def Trail (text : List Char) (i : Nat) : List Mark → Prop
  | [] => True
  | m :: older => ∃ j, i = j + 1 ∧
      text[j]? = some m.char ∧ m.before = ({} : Place).steps (text.take j) ∧ Trail text j older

theorem Trail.take {text : List Char} {i : Nat} {marks : List Mark} (h : Trail text i marks)
    (n : Nat) : Trail text i (marks.take n) := by
  induction marks generalizing i n with
  | nil => simpa using h
  | cons m older ih =>
    cases n with
    | zero => exact trivial
    | succ n =>
      obtain ⟨j, hj, hchar, hbefore, holder⟩ := h
      exact ⟨j, hj, hchar, hbefore, ih holder n⟩

/-- The cursor stands at index `i` of a text and has been at index `m` at the furthest. -/
structure Stands (text : List Char) (i m : Nat) (cur : Cursor) : Prop where
  ahead : cur.ahead = text.drop i
  place : cur.place = ({} : Place).steps (text.take i)
  index_le : i ≤ m
  furthest_le : m ≤ text.length
  returned : cur.returned = m - i
  trail : Trail text i cur.trail
  /-- What can be given back and what was given back are together as much as the depth allows. -/
  budget : cur.ended = false → cur.trail.length + (m - i) = min cur.depth m
  atEnd : cur.ended = true → cur.trail = [] ∧ i = text.length

theorem stands_open {text : List Char} {depth : Int} {source : String} {cur : Cursor}
    (h : open? text depth source = some cur) : Stands text 0 0 cur := by
  unfold open? at h
  split at h
  · cases h
    exact
      { ahead := rfl, place := rfl, index_le := Nat.le_refl 0, furthest_le := Nat.zero_le _
        returned := rfl, trail := trivial
        budget := fun _ => by simp
        atEnd := fun hended => by simp at hended }
  · cases h

theorem depth_of_open {text : List Char} {depth : Int} {source : String} {cur : Cursor}
    (h : open? text depth source = some cur) : (cur.depth : Int) = depth := by
  unfold open? at h
  split at h
  · cases h
    simp only
    omega
  · cases h

section Calls

variable {text : List Char} {i m : Nat} {cur : Cursor}

/-! ### Reading -/

theorem Stands.next_eq (h : Stands text i m cur) : cur.next.1 = text[i]? := by
  rw [fst_next, h.ahead, List.head?_drop]

theorem Stands.next_some (h : Stands text i m cur) {c : Char} (hc : text[i]? = some c) :
    Stands text (i + 1) (max m (i + 1)) cur.next.2 := by
  obtain ⟨hi, hget⟩ := List.getElem?_eq_some_iff.mp hc
  have hcons : cur.ahead = c :: text.drop (i + 1) := by
    rw [h.ahead, List.drop_eq_getElem_cons hi, hget]
  have hlive : cur.ended = false := by
    cases hended : cur.ended with
    | false => rfl
    | true => have := (h.atEnd hended).2; omega
  have hbudget := h.budget hlive
  have hle := h.index_le
  have hfar := h.furthest_le
  rw [next_of_cons hcons]
  refine
    { ahead := rfl, place := ?_, index_le := Nat.le_max_right .., furthest_le := ?_
      returned := ?_, trail := ?_, budget := fun _ => ?_, atEnd := fun hended => ?_ }
  · rw [List.take_add_one, hc, h.place, Place.steps_append]
    rfl
  · omega
  · simp only [h.returned]
    omega
  · have hlonger : Trail text (i + 1) (⟨c, cur.place⟩ :: cur.trail) :=
      ⟨i, rfl, hc, h.place, h.trail⟩
    exact hlonger.take _
  · -- Either the cursor catches up with where it has been, or it goes further than ever.
    simp only [List.length_take, List.length_cons]
    omega
  · rw [hlive] at hended
    cases hended

/-- At the end of the text the cursor stays, and can give nothing back from then on. -/
theorem Stands.next_none (h : Stands text i m cur) (hc : text[i]? = none) :
    Stands text i m cur.next.2 ∧ cur.next.2.ended = true := by
  have hi : text.length ≤ i := List.getElem?_eq_none_iff.mp hc
  have hle := h.index_le
  have hfar := h.furthest_le
  have hnil : cur.ahead = [] := by rw [h.ahead, List.drop_eq_nil_of_le hi]
  rw [next_of_nil hnil]
  refine ⟨?_, rfl⟩
  exact
    { ahead := h.ahead, place := h.place, index_le := hle, furthest_le := hfar
      returned := h.returned, trail := trivial
      budget := fun hended => by cases hended
      atEnd := fun _ => ⟨rfl, by omega⟩ }

/-! ### Giving back -/

/-- A character can be given back exactly if the end was not seen, there is one, not too many were
given back before, and it is no line feed. -/
theorem Stands.pushback_iff (h : Stands text i m cur) :
    (∃ cur', cur.pushback = .ok cur') ↔
      cur.ended = false ∧ 0 < i ∧ m - i < cur.depth ∧ text[i - 1]? ≠ some '\n' := by
  have hle := h.index_le
  have htrail := h.trail
  cases hmarks : cur.trail with
  | nil =>
    -- With no mark left, the budget says that one of the conditions fails.
    have herror : cur.pushback = .error cur.blockedCause := by simp [pushback, hmarks]
    rw [herror]
    constructor
    · rintro ⟨cur', hok⟩
      cases hok
    · rintro ⟨hlive, hpos, hroom, -⟩
      have hbudget := h.budget hlive
      simp only [hmarks, List.length_nil] at hbudget
      omega
  | cons mk older =>
    have hlive : cur.ended = false := by
      cases hended : cur.ended with
      | false => rfl
      | true => have := (h.atEnd hended).1; rw [hmarks] at this; cases this
    have hbudget := h.budget hlive
    rw [hmarks] at htrail hbudget
    simp only [List.length_cons] at hbudget
    obtain ⟨j, rfl, hchar, -, -⟩ := htrail
    by_cases hbreak : mk.char = '\n'
    · -- The mark is there, but it is of a line feed.
      have herror : cur.pushback = .error .lineFeed := by simp [pushback, hmarks, hbreak]
      rw [herror]
      constructor
      · rintro ⟨cur', hok⟩
        cases hok
      · rintro ⟨-, -, -, hne⟩
        rw [hbreak] at hchar
        exact absurd hchar hne
    · constructor
      · intro _
        refine ⟨hlive, Nat.succ_pos j, by omega, ?_⟩
        simpa [hchar] using hbreak
      · intro _
        simp [pushback, hmarks, hbreak]

/-- Giving a character back moves the index back by one, and leaves how far it has been. -/
theorem Stands.pushback (h : Stands text i m cur) {cur' : Cursor} (hok : cur.pushback = .ok cur') :
    ∃ j, i = j + 1 ∧ Stands text j m cur' ∧ cur'.ended = false := by
  have hle := h.index_le
  have htrail := h.trail
  obtain ⟨hlive, -, hroom, -⟩ := h.pushback_iff.mp ⟨cur', hok⟩
  have hbudget := h.budget hlive
  unfold Cursor.pushback at hok
  split at hok
  · cases hok
  · rename_i mk older hmarks
    split at hok
    · cases hok
    · cases hok
      rw [hmarks] at htrail hbudget
      simp only [List.length_cons] at hbudget
      obtain ⟨j, rfl, hchar, hbefore, holder⟩ := htrail
      obtain ⟨hj, hget⟩ := List.getElem?_eq_some_iff.mp hchar
      refine ⟨j, rfl, ?_, hlive⟩
      refine
        { ahead := ?_, place := hbefore, index_le := by omega, furthest_le := h.furthest_le
          returned := ?_, trail := holder, budget := fun _ => ?_, atEnd := fun hended => ?_ }
      · simp only [h.ahead]
        rw [← hget, ← List.drop_eq_getElem_cons hj]
      · simp only [h.returned]
        omega
      · simp only
        omega
      · simp only [hlive] at hended
        cases hended

/-! ### The position -/

theorem Stands.position_eq (h : Stands text i m cur) :
    cur.position = if i = 0 then ⟨1, 0⟩ else positionAt text (i - 1) := by
  unfold position
  rw [h.place]
  cases i with
  | zero => rfl
  | succ j =>
    have hj : j < text.length := by
      have := h.index_le
      have := h.furthest_le
      omega
    rw [if_neg (Nat.succ_ne_zero j), List.take_succ_eq_append_getElem hj, Place.steps_append]
    exact position_step_steps _ _

end Calls

/-! ## Any calls -/

/-- The cursor stands where the tally of its answers says. -/
def Counted (text : List Char) (t : Tally) (cur : Cursor) : Prop :=
  ∃ i m : Nat, t = ⟨i, m, cur.ended⟩ ∧ Stands text i m cur

theorem counted_open {text : List Char} {depth : Int} {source : String} {cur : Cursor}
    (h : open? text depth source = some cur) : Counted text {} cur := by
  have hs := stands_open h
  have hlive : cur.ended = false := by
    unfold open? at h
    split at h
    · cases h
      rfl
    · cases h
  exact ⟨0, 0, by rw [hlive]; rfl, hs⟩

/-- One call keeps the tally right, whichever it is and however it is answered. -/
theorem Counted.call {text : List Char} {t : Tally} {cur : Cursor} (h : Counted text t cur)
    (k : Call) : Counted text (t.count (cur.call k).1) (cur.call k).2 := by
  obtain ⟨i, m, rfl, hs⟩ := h
  cases k with
  | next =>
    have hanswer : (cur.call .next).1 = .read text[i]? := by simp [Cursor.call, hs.next_eq]
    rw [hanswer]
    cases hc : text[i]? with
    | none =>
      obtain ⟨hstands, hended⟩ := hs.next_none hc
      exact ⟨i, m, by simp [Tally.count, Cursor.call, hended], hstands⟩
    | some c =>
      have hended : cur.next.2.ended = cur.ended := by
        have hsome : cur.next.1 = some c := hs.next_eq.trans hc
        unfold next at hsome ⊢
        split <;> simp_all
      refine ⟨i + 1, max m (i + 1), ?_, hs.next_some hc⟩
      simp only [Tally.count, Cursor.call, hended, Tally.mk.injEq, and_true]
      omega
  | pushback =>
    unfold Cursor.call
    cases hp : cur.pushback with
    | error cause => exact ⟨i, m, rfl, hs⟩
    | ok cur' =>
      obtain ⟨j, rfl, hstands, hended⟩ := hs.pushback hp
      obtain ⟨hlive, -⟩ := hs.pushback_iff.mp ⟨cur', hp⟩
      exact ⟨j, m, by simp [Tally.count, hended, hlive], hstands⟩

theorem Counted.calls {text : List Char} (ks : List Call) {t : Tally} {cur : Cursor}
    (h : Counted text t cur) :
    Counted text ((cur.calls ks).1.foldl Tally.count t) (cur.calls ks).2 := by
  induction ks generalizing t cur with
  | nil => exact h
  | cons k ks ih => exact ih (h.call k)

theorem depth_call (cur : Cursor) (k : Call) : (cur.call k).2.depth = cur.depth := by
  cases k with
  | next => exact depth_next cur
  | pushback =>
    show (match cur.pushback with
      | .ok cur' => (Answer.returned, cur')
      | .error cause => (.refused cause, cur)).2.depth = cur.depth
    cases hp : cur.pushback with
    | ok cur' => exact depth_pushback hp
    | error cause => rfl

theorem depth_calls (ks : List Call) (cur : Cursor) : (cur.calls ks).2.depth = cur.depth := by
  induction ks generalizing cur with
  | nil => rfl
  | cons k ks ih => exact (ih (cur.call k).2).trans (depth_call cur k)

/-- With nothing left to read, every further answer is the end of the text. -/
theorem readAnswers_of_ahead_nil {cur : Cursor} (h : cur.ahead = []) (n : Nat) :
    cur.readAnswers n = List.replicate n (.read none) := by
  induction n generalizing cur with
  | zero => rfl
  | succ n ih =>
    have hnone : cur.next.1 = none := next_eq_none_iff.mpr h
    have hahead : cur.next.2.ahead = [] := by
      rw [ahead_next, h]
      rfl
    have hrest := ih hahead
    show Answer.read cur.next.1 :: cur.next.2.readAnswers n = _
    rw [hnone, hrest]
    rfl

/-- What a caller knows of a cursor on `text` whose answers have the tally `t`, when `i` is the index
in it. -/
structure Mirrors (text : List Char) (depth : Int) (t : Tally) (i : Nat) (cur : Cursor) : Prop where
  /-- The next answer is the character at the index, or the end of the text. -/
  next_eq : cur.next.1 = text[i]?
  position_eq : cur.position = if i = 0 then ⟨1, 0⟩ else positionAt text (i - 1)
  pushback_iff : (∃ cur', cur.pushback = .ok cur') ↔
    t.endSeen = false ∧ 0 < i ∧ t.furthest - i < depth ∧ text[i - 1]? ≠ some '\n'
  /-- A refusal changes nothing. -/
  refused : ∀ cause, cur.pushback = .error cause → cur.call .pushback = (.refused cause, cur)
  /-- Seeing the end moves nothing, and changes nothing of what is read later. -/
  next_none : cur.next.1 = none → cur.next.2.position = cur.position ∧
    ∀ n, cur.next.2.readAnswers n = cur.readAnswers n
  /-- Once the end was seen it is the only answer, and nothing is given back. -/
  final : t.endSeen = true → cur.next.1 = none ∧ ∃ cause, cur.pushback = .error cause

theorem Stands.mirrors {text : List Char} {i m : Nat} {cur : Cursor} (h : Stands text i m cur) :
    Mirrors text cur.depth ⟨i, m, cur.ended⟩ i cur where
  next_eq := h.next_eq
  position_eq := h.position_eq
  pushback_iff := by
    have hle := h.index_le
    rw [h.pushback_iff]
    simp only
    have hroom : m - i < cur.depth ↔ (m : Int) - i < cur.depth := by omega
    rw [hroom]
  refused := fun cause hcause => by simp [Cursor.call, hcause]
  next_none := by
    intro hnone
    have hnil : cur.ahead = [] := next_eq_none_iff.mp hnone
    refine ⟨by simp [next, hnil, position], fun n => ?_⟩
    rw [readAnswers_of_ahead_nil hnil, readAnswers_of_ahead_nil (by rw [ahead_next, hnil]; rfl)]
  final := by
    intro hended
    simp only at hended
    obtain ⟨htrail, hi⟩ := h.atEnd hended
    refine ⟨?_, cur.blockedCause, by simp [Cursor.pushback, htrail]⟩
    rw [h.next_eq, hi]
    simp

/-- **A cursor is an index into its text.** Open a cursor with any depth it can be opened with, and
make any calls: the tally of the answers has an index in the text, and that index says everything
about the cursor a caller can find out. -/
theorem mirrors_calls {text : List Char} {depth : Int} {source : String} {cur : Cursor}
    (h : open? text depth source = some cur) (ks : List Call) :
    ∃ i : Nat, (Tally.ofAnswers (cur.calls ks).1).index = i ∧
      Mirrors text depth (Tally.ofAnswers (cur.calls ks).1) i (cur.calls ks).2 := by
  obtain ⟨i, m, htally, hs⟩ := (counted_open h).calls ks
  refine ⟨i, by rw [Tally.ofAnswers, htally], ?_⟩
  have hm := hs.mirrors
  rw [depth_calls, depth_of_open h] at hm
  rw [Tally.ofAnswers, htally]
  exact hm

theorem mirrors_calls_across_break :
    (open? ['a', '\n', 'b', 'c'] 2).isSome = true ∧
      ∀ cur, open? ['a', '\n', 'b', 'c'] 2 = some cur →
        ∃ i : Nat,
          (Tally.ofAnswers (cur.calls [.next, .next, .next, .pushback, .pushback]).1).index = i ∧
          Mirrors ['a', '\n', 'b', 'c'] 2
            (Tally.ofAnswers (cur.calls [.next, .next, .next, .pushback, .pushback]).1) i
            (cur.calls [.next, .next, .next, .pushback, .pushback]).2 :=
  ⟨rfl, fun _ h => mirrors_calls h [.next, .next, .next, .pushback, .pushback]⟩

end Cursor

end CLexer
