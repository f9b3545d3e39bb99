import CLexer.Proofs.Buffer
import Mathlib.Data.List.Induction
import Mathlib.Order.Bounds.Basic
import Mathlib.Tactic.Ring

/-!
# Buffers over any calls

What a buffer does over a whole run of calls. Beside it stands a plain text that is cut off at a
limit and knows nothing of rooms. Both give the same answers and hold the same characters
(`Holds.calls`).

The capacity is not the plain text's business, and it is told by the run alone: of the rooms that
repeated doubling passes through, it is the first one that the longest text so far fits in. A
buffer grows only when it is used up, so it never skips a room, and a reset gives no room back.
-/

set_option autoImplicit false

namespace CLexer

namespace Buffer

/-! ## Calls -/

/-- What is asked of a buffer. -/
inductive Call where
  | push (c : Char)
  | pushBelow (c : Char) (most : Int)
  | reset

/-- What comes of a call. -/
inductive Answer where
  | done
  | stored (was : Bool)
  | refused (overflow : Overflow)
deriving DecidableEq

/-- A refused call leaves the buffer as it was. -/
def call (b : Buffer) : Call → Answer × Buffer
  | .push c =>
      match b.tryPush c with
      | .ok b' => (.done, b')
      | .error overflow => (.refused overflow, b)
  | .pushBelow c most =>
      match b.tryPushBelow c most with
      | .ok (was, b') => (.stored was, b')
      | .error overflow => (.refused overflow, b)
  | .reset => (.done, b.reset)

theorem call_push (b : Buffer) (c : Char) :
    b.call (.push c) = if b.isFull then (.refused b.overflow, b) else (.done, b.push c) := by
  rw [call, tryPush]
  cases b.isFull <;> rfl

theorem call_pushBelow (b : Buffer) (c : Char) (most : Int) :
    b.call (.pushBelow c most) =
      if most ≤ (b.size : Int) then (.stored false, b)
      else if b.isFull then (.refused b.overflow, b)
      else (.stored true, b.push c) := by
  rw [call, tryPushBelow, tryPush]
  by_cases hbelow : most ≤ (b.size : Int)
  · rw [if_pos hbelow, if_pos hbelow]
  · rw [if_neg hbelow, if_neg hbelow]
    cases b.isFull <;> rfl

/-- A call does nothing to the buffer, or else it is not refused and adds one character or forgets
them all. -/
theorem call_cases (b : Buffer) (k : Call) :
    (b.call k).2 = b ∨ (∀ overflow, (b.call k).1 ≠ .refused overflow) ∧
      ((∃ c, (b.call k).2 = b.push c) ∨ (b.call k).2 = b.reset) := by
  cases k with
  | push c =>
    rw [call_push]
    split
    · exact .inl rfl
    · exact .inr ⟨nofun, .inl ⟨c, rfl⟩⟩
  | pushBelow c most =>
    rw [call_pushBelow]
    split
    · exact .inl rfl
    · split
      · exact .inl rfl
      · exact .inr ⟨nofun, .inl ⟨c, rfl⟩⟩
  | reset => exact .inr ⟨nofun, .inr rfl⟩

/-- The answers to calls that are made one after another, and what is there when they are through.
-/
def runCalls {σ : Type} (step : σ → Call → Answer × σ) (s : σ) : List Call → List Answer × σ
  | [] => ([], s)
  | k :: ks =>
      let (answer, s') := step s k
      let (answers, after) := runCalls step s' ks
      (answer :: answers, after)

theorem runCalls_concat {σ : Type} (step : σ → Call → Answer × σ) (s : σ) (ks : List Call)
    (k : Call) :
    runCalls step s (ks ++ [k]) =
      ((runCalls step s ks).1 ++ [(step (runCalls step s ks).2 k).1],
        (step (runCalls step s ks).2 k).2) := by
  induction ks generalizing s with
  | nil => rfl
  | cons k' ks ih => simp only [List.cons_append, runCalls, ih]

/-! ## The plain text -/

/-- The same calls for a text without rooms. Only a text as long as the limit takes no more. -/
def textCall (limit : Option Nat) (text : List Char) : Call → Answer × List Char
  | .push c =>
      if limit = some text.length then (.refused ⟨text.length⟩, text) else (.done, text ++ [c])
  | .pushBelow c most =>
      if (text.length : Int) < most then
        if limit = some text.length then (.refused ⟨text.length⟩, text)
        else (.stored true, text ++ [c])
      else (.stored false, text)
  | .reset => (.done, [])

/-- The lengths that a text has had when the calls are through. -/
def lengths (limit : Option Nat) (ks : List Call) : Set Nat :=
  {n | ∃ before, before <+: ks ∧ n = (runCalls (textCall limit) [] before).2.length}

theorem lengths_nil (limit : Option Nat) : lengths limit [] = {0} := by
  ext n
  constructor
  · rintro ⟨before, hprefix, rfl⟩
    rw [List.prefix_nil.mp hprefix]
    rfl
  · rintro rfl
    exact ⟨[], List.nil_prefix, rfl⟩

theorem lengths_concat (limit : Option Nat) (ks : List Call) (k : Call) :
    lengths limit (ks ++ [k]) =
      insert (runCalls (textCall limit) [] (ks ++ [k])).2.length (lengths limit ks) := by
  ext n
  constructor
  · rintro ⟨before, hprefix, rfl⟩
    rcases List.prefix_concat_iff.mp hprefix with rfl | hprefix
    · exact .inl rfl
    · exact .inr ⟨before, hprefix, rfl⟩
  · rintro (rfl | ⟨before, hprefix, rfl⟩)
    · exact ⟨ks ++ [k], List.prefix_rfl, rfl⟩
    · exact ⟨before, hprefix.trans (List.prefix_append _ _), rfl⟩

/-! ## Rooms -/

/-- As much of the room as the limit allows. -/
def within (limit : Option Nat) (room : Nat) : Nat := limit.elim room (min room)

/-- The room after a number of doublings. -/
def doubled (limit : Option Nat) (first n : Nat) : Nat := within limit (2 ^ n * first)

/-- The rooms that a text of a given length fits in. -/
def roomsFor (limit : Option Nat) (first longest : Nat) : Set Nat :=
  {room | (∃ n, room = doubled limit first n) ∧ longest ≤ room}

variable {limit : Option Nat} {first : Nat}

theorem within_mono {room room' : Nat} (h : room ≤ room') :
    within limit room ≤ within limit room' := by
  cases limit with
  | none => exact h
  | some l => exact inf_le_inf_right l h

theorem doubled_mono {n m : Nat} (h : n ≤ m) : doubled limit first n ≤ doubled limit first m :=
  within_mono (Nat.mul_le_mul_right first (Nat.pow_le_pow_right (by decide) h))

/-- What the limit cut off is not missed when the rest is doubled. -/
theorem doubled_succ (n : Nat) :
    doubled limit first (n + 1) = within limit (doubled limit first n * 2) := by
  have hpow : 2 ^ (n + 1) * first = 2 ^ n * first * 2 := by ring
  unfold doubled
  rw [hpow]
  cases limit with
  | none => rfl
  | some l =>
    simp only [within, Option.elim_some]
    omega

theorem capacity_empty (capacity : Nat) :
    (empty capacity limit).capacity = within limit capacity := by
  cases limit <;> rfl

theorem room_eq (b : Buffer) :
    b.room = if b.size < b.capacity then b.capacity else within b.limit (b.capacity * 2) := by
  unfold room
  cases b.limit <;> rfl

/-- One step makes enough room. -/
theorem Sound.size_lt_room {b : Buffer} (h : b.Sound) (hfull : b.isFull = false) :
    b.size < b.room := by
  have hsize := (h.push hfull default).size_le
  rwa [size_push] at hsize

/-! ## One call -/

/-- A buffer that holds the text, with the first room that the longest text so far fits in. -/
structure Holds (limit : Option Nat) (first : Nat) (text : List Char) (longest : Nat) (b : Buffer) :
    Prop where
  sound : b.Sound
  limit_eq : b.limit = limit
  text_eq : b.chars.toList = text
  length_le : text.length ≤ longest
  capacity : IsLeast (roomsFor limit first longest) b.capacity

variable {text : List Char} {longest : Nat} {b : Buffer}

theorem Holds.size_eq (h : Holds limit first text longest b) : b.size = text.length := by
  rw [← h.text_eq]
  exact Array.length_toList.symm

theorem Holds.isFull_iff (h : Holds limit first text longest b) :
    b.isFull = true ↔ limit = some text.length := by
  rw [h.sound.isFull_iff, h.limit_eq, h.size_eq]

/-- The room after a push is again the first one that is large enough: the same, if there is a place
left, and else the next. -/
theorem Holds.room (h : Holds limit first text longest b) (hfull : b.isFull = false) :
    IsLeast (roomsFor limit first (max longest (text.length + 1))) b.room := by
  obtain ⟨⟨⟨n, hn⟩, hlongest⟩, hleast⟩ := h.capacity
  have hsize : b.size = text.length := h.size_eq
  have hlength : text.length ≤ longest := h.length_le
  rw [room_eq]
  split
  · next hplace =>
    refine ⟨⟨⟨n, hn⟩, by omega⟩, fun room hroom => hleast ⟨hroom.1, ?_⟩⟩
    exact (le_max_left _ _).trans hroom.2
  · next hused =>
    -- The text fills the room, so that no text has been longer.
    have hgrown : within b.limit (b.capacity * 2) = doubled limit first (n + 1) := by
      rw [h.limit_eq, hn, doubled_succ]
    have hnext : b.size < within b.limit (b.capacity * 2) := by
      have hroom := h.sound.size_lt_room hfull
      rwa [room_eq, if_neg hused] at hroom
    refine ⟨⟨⟨n + 1, hgrown⟩, by omega⟩, ?_⟩
    rintro room ⟨⟨m, rfl⟩, hm⟩
    rw [hgrown]
    refine doubled_mono (Nat.succ_le_of_lt ?_)
    by_contra hle
    have hback : doubled limit first m ≤ b.capacity := hn ▸ doubled_mono (not_lt.mp hle)
    omega

theorem Holds.push (h : Holds limit first text longest b) (hlimit : limit ≠ some text.length)
    (c : Char) : Holds limit first (text ++ [c]) (max longest (text ++ [c]).length) (b.push c) := by
  have hfull : b.isFull = false := by
    rw [← Bool.not_eq_true, h.isFull_iff]
    exact hlimit
  refine ⟨h.sound.push hfull c, h.limit_eq, ?_, le_max_right _ _, ?_⟩
  · rw [toList_push, h.text_eq]
  · rw [List.length_append]
    exact h.room hfull

theorem Holds.reset (h : Holds limit first text longest b) : Holds limit first [] longest b.reset :=
  ⟨h.sound.reset, h.limit_eq, rfl, Nat.zero_le _, h.capacity⟩

theorem Holds.overflow_eq (h : Holds limit first text longest b)
    (hlimit : limit = some text.length) : b.overflow = ⟨text.length⟩ := by
  rw [overflow, h.limit_eq, hlimit]
  rfl

/-- The longest text so far is not longer for a call that leaves the text as it was. -/
theorem Holds.same (h : Holds limit first text longest b) :
    Holds limit first text (max longest text.length) b := by
  rwa [max_eq_left h.length_le]

/-- A call is answered as the plain text answers it. -/
theorem Holds.call (h : Holds limit first text longest b) (k : Call) :
    (b.call k).1 = (textCall limit text k).1 ∧
      Holds limit first (textCall limit text k).2
        (max longest (textCall limit text k).2.length) (b.call k).2 := by
  cases k with
  | push c =>
    rw [call_push, textCall]
    by_cases hlimit : limit = some text.length
    · rw [if_pos (h.isFull_iff.mpr hlimit), if_pos hlimit, h.overflow_eq hlimit]
      exact ⟨rfl, h.same⟩
    · rw [if_neg (mt h.isFull_iff.mp hlimit), if_neg hlimit]
      exact ⟨rfl, h.push hlimit c⟩
  | pushBelow c most =>
    rw [call_pushBelow, textCall, h.size_eq]
    by_cases hbelow : (text.length : Int) < most
    · rw [if_neg (not_le.mpr hbelow), if_pos hbelow]
      by_cases hlimit : limit = some text.length
      · rw [if_pos (h.isFull_iff.mpr hlimit), if_pos hlimit, h.overflow_eq hlimit]
        exact ⟨rfl, h.same⟩
      · rw [if_neg (mt h.isFull_iff.mp hlimit), if_neg hlimit]
        exact ⟨rfl, h.push hlimit c⟩
    · rw [if_pos (not_lt.mp hbelow), if_neg hbelow]
      exact ⟨rfl, h.same⟩
  | reset =>
    have htext : textCall limit text .reset = (.done, []) := rfl
    rw [htext, List.length_nil, Nat.max_zero]
    exact ⟨rfl, h.reset⟩

/-- A call leaves the room as it is, or is one step that doubles it. -/
theorem capacity_call (b : Buffer) (k : Call) :
    (b.call k).2.capacity = b.capacity ∨
      (b.call k).2.capacity = within b.limit (b.capacity * 2) := by
  rcases b.call_cases k with hcall | ⟨-, ⟨c, hcall⟩ | hcall⟩
  · exact .inl (by rw [hcall])
  · have hroom : (b.call k).2.capacity = b.room := by
      rw [hcall]
      rfl
    rw [hroom, room_eq]
    split
    · exact .inl rfl
    · exact .inr rfl
  · exact .inl (by rw [hcall]; rfl)

theorem Sound.capacity_le_call (h : b.Sound) (k : Call) : b.capacity ≤ (b.call k).2.capacity := by
  have hdouble : b.capacity ≤ b.capacity * 2 := Nat.le_mul_of_pos_right b.capacity (by decide)
  rcases b.capacity_call k with hsame | hdoubled
  · exact hsame.ge
  · rw [hdoubled]
    cases hlimit : b.limit with
    | none => exact hdouble
    | some l => exact le_min hdouble (h.capacity_le l hlimit)

/-! ## Any calls -/

theorem holds_empty {capacity : Nat} (hcapacity : 0 < capacity) (hlimit : ∀ l ∈ limit, 0 < l) :
    Holds limit (within limit capacity) [] 0 (empty capacity limit) where
  sound := sound_empty hcapacity hlimit
  limit_eq := rfl
  text_eq := rfl
  length_le := Nat.le_refl 0
  capacity := by
    have hfirst : doubled limit (within limit capacity) 0 = within limit capacity := by
      cases limit with
      | none => exact Nat.one_mul capacity
      | some l => simp [doubled, within]
    rw [capacity_empty]
    refine ⟨⟨⟨0, hfirst.symm⟩, Nat.zero_le _⟩, ?_⟩
    rintro room ⟨⟨n, rfl⟩, -⟩
    exact hfirst.symm.trans_le (doubled_mono (Nat.zero_le n))

/-- Over any calls a buffer answers as the plain text does, and goes on holding it. -/
theorem Holds.calls (h : Holds limit first [] 0 b) (ks : List Call) :
    (runCalls Buffer.call b ks).1 = (runCalls (textCall limit) [] ks).1 ∧
      ∃ longest, IsGreatest (lengths limit ks) longest ∧
        Holds limit first (runCalls (textCall limit) [] ks).2 longest
          (runCalls Buffer.call b ks).2 := by
  induction ks using List.reverseRecOn with
  | nil =>
    refine ⟨rfl, 0, ?_, h⟩
    rw [lengths_nil]
    exact isGreatest_singleton
  | append_singleton ks k ih =>
    obtain ⟨hanswers, longest, hgreatest, hholds⟩ := ih
    obtain ⟨hanswer, hcall⟩ := hholds.call k
    rw [lengths_concat]
    simp only [runCalls_concat, hanswers, hanswer]
    refine ⟨trivial, _, ?_, hcall⟩
    rw [max_comm]
    exact hgreatest.insert _

theorem make_eq_ok {capacity : Int} {limit : Option Int} (hcapacity : 1 ≤ capacity)
    (hlimit : ∀ l ∈ limit, 1 ≤ l) :
    make capacity limit = .ok (empty capacity.toNat (limit.map Int.toNat)) := by
  cases limit with
  | none => exact if_neg (not_lt.mpr hcapacity)
  | some l => simp only [make, if_neg (not_lt.mpr hcapacity), if_neg (not_lt.mpr (hlimit l rfl)),
      Option.map_some]

/-- **A buffer is a bounded text.** Over any calls it answers as a text does that is refused more
characters exactly when it is as long as the limit, and it holds the same characters. A call that
is refused changes nothing. The characters fit in the room and the room in the limit, and the room
is the first one of the doublings that the longest text so far fits in: no call gives any back, and
a call that needs more doubles once. -/
theorem calls_refine_bounded_text {capacity : Int} {limit : Option Int} (hcapacity : 1 ≤ capacity)
    (hlimit : ∀ l ∈ limit, 1 ≤ l) :
    ∃ b, make capacity limit = .ok b ∧ ∀ ks : List Call,
      let most := limit.map Int.toNat
      let plain := runCalls (textCall most) [] ks
      let after := (runCalls call b ks).2
      ((runCalls call b ks).1 = plain.1 ∧ after.text = String.ofList plain.2) ∧
      (after.size ≤ after.capacity ∧ ∀ l ∈ limit, (after.capacity : Int) ≤ l) ∧
      (∃ longest, IsGreatest (lengths most ks) longest ∧
        IsLeast (roomsFor most (within most capacity.toNat) longest) after.capacity) ∧
      ∀ k : Call,
        (∀ overflow, (after.call k).1 = .refused overflow → (after.call k).2 = after) ∧
        after.capacity ≤ (after.call k).2.capacity ∧
        ((after.call k).2.capacity = after.capacity ∨
          (after.call k).2.capacity = within most (after.capacity * 2)) := by
  have hpositive : ∀ l ∈ limit.map Int.toNat, 0 < l := by
    intro l hl
    obtain ⟨l', hl', rfl⟩ := Option.map_eq_some_iff.mp hl
    have := hlimit l' hl'
    omega
  have hempty : Holds (limit.map Int.toNat) _ [] 0 (empty capacity.toNat (limit.map Int.toNat)) :=
    holds_empty (by omega) hpositive
  refine ⟨_, make_eq_ok hcapacity hlimit, ?_⟩
  intro ks most plain after
  obtain ⟨hanswers, longest, hgreatest, hholds⟩ := hempty.calls ks
  have hsound : after.Sound := hholds.sound
  refine ⟨⟨hanswers, congrArg String.ofList hholds.text_eq⟩, ⟨hsound.size_le, ?_⟩,
    ⟨longest, hgreatest, hholds.capacity⟩, fun k => ⟨?_, hsound.capacity_le_call k, ?_⟩⟩
  · intro l hl
    have hle := hsound.capacity_le l.toNat (hholds.limit_eq.trans (congrArg _ hl))
    have := hlimit l hl
    omega
  · intro overflow hrefused
    rcases after.call_cases k with hcall | ⟨hcall, -⟩
    · exact hcall
    · exact absurd hrefused (hcall overflow)
  · have := after.capacity_call k
    rwa [show after.limit = most from hholds.limit_eq] at this

/-- Room for two, then four, then five characters. No more get in, and behind a reset there is still
room for five. -/
theorem calls_refine_bounded_text_at_limit :
    let ks := "abcdefg".toList.map Call.push ++ [.reset, .pushBelow 'h' 1, .pushBelow 'i' 1]
    ((1 : Int) ≤ 2 ∧ ∀ l ∈ some (5 : Int), 1 ≤ l) ∧ ∃ b, make 2 (some 5) = .ok b ∧
      (runCalls call b ks).1 =
        [.done, .done, .done, .done, .done, .refused ⟨5⟩, .refused ⟨5⟩, .done, .stored true,
          .stored false] ∧
      (runCalls call b ks).2.text = "h" ∧
      ∃ longest, IsGreatest (lengths (some 5) ks) longest ∧
        IsLeast (roomsFor (some 5) 2 longest) (runCalls call b ks).2.capacity := by
  intro ks
  have hlimit : ∀ l ∈ some (5 : Int), 1 ≤ l := by
    rintro l hl
    obtain rfl := Option.some.inj hl
    decide
  obtain ⟨b, hmake, hruns⟩ := @calls_refine_bounded_text 2 (some 5) (by decide) hlimit
  obtain ⟨⟨hanswers, htext⟩, -, hroom, -⟩ := hruns ks
  exact ⟨⟨by decide, hlimit⟩, b, hmake, hanswers, htext, hroom⟩

end Buffer

end CLexer
