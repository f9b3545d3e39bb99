import CLexer.Buffer

/-!
# Buffers as bounded texts

A buffer doubles its room as it is filled, and the limit cuts the doubling short. Of all that only
one thing shows outside: with a limit set, a buffer takes characters up to the limit and not one
more. `fill_eq` says so for any characters at once.

It needs what every buffer of a scanner satisfies, `Sound`: the characters fit in the room, the room
fits under the limit, and there is some room to double.
-/

set_option autoImplicit false

namespace CLexer

namespace Buffer

variable {b : Buffer}

/-- The characters are within the room and the room within the limit, and there is room to double. -/
structure Sound (b : Buffer) : Prop where
  size_le : b.size ≤ b.capacity
  capacity_le : ∀ l ∈ b.limit, b.capacity ≤ l
  capacity_pos : 0 < b.capacity

/-- How many of `n` further characters there is room for. -/
def space (b : Buffer) (n : Nat) : Nat :=
  match b.limit with
  | none => n
  | some l => l - b.size

theorem sound_empty {capacity : Nat} {limit : Option Nat} (hc : 0 < capacity)
    (hl : ∀ l ∈ limit, 0 < l) : (empty capacity limit).Sound := by
  cases limit with
  | none => exact ⟨Nat.zero_le _, fun _ h => (by cases h), hc⟩
  | some l =>
    have hpos : 0 < l := hl l rfl
    refine ⟨Nat.zero_le _, fun k hk => ?_, ?_⟩
    · cases hk
      exact Nat.min_le_right _ _
    · exact Nat.lt_min.mpr ⟨hc, hpos⟩

theorem Sound.reset (h : b.Sound) : b.reset.Sound :=
  ⟨Nat.zero_le _, h.capacity_le, h.capacity_pos⟩

/-! ## One character -/

/-- A buffer is full exactly if it holds as many characters as its limit allows. -/
theorem Sound.isFull_iff (h : b.Sound) : b.isFull = true ↔ b.limit = some b.size := by
  have hsize := h.size_le
  unfold isFull
  cases hlimit : b.limit with
  | none => simp
  | some l =>
    have hcap := h.capacity_le l hlimit
    simp only [Bool.and_eq_true, decide_eq_true_eq, Option.some.injEq]
    omega

theorem Sound.size_lt (h : b.Sound) (hfull : b.isFull = false) : ∀ l ∈ b.limit, b.size < l := by
  intro l hl
  have hsize := h.size_le
  have hcap := h.capacity_le l hl
  have hne : l ≠ b.size := by
    rintro rfl
    rw [h.isFull_iff.mpr hl] at hfull
    cases hfull
  omega

theorem size_push (b : Buffer) (c : Char) : (b.push c).size = b.size + 1 := by
  simp [push, size]

theorem toList_push (b : Buffer) (c : Char) :
    (b.push c).chars.toList = b.chars.toList ++ [c] := by
  simp [push]

@[simp] theorem limit_push (b : Buffer) (c : Char) : (b.push c).limit = b.limit := rfl

/-- One doubling always makes enough room, and never too much. -/
theorem Sound.push (h : b.Sound) (hfull : b.isFull = false) (c : Char) : (b.push c).Sound := by
  have hsize := h.size_le
  have hpos := h.capacity_pos
  have hcapacity : (b.push c).capacity = b.room := rfl
  have hfree := h.size_lt hfull
  refine ⟨?_, ?_, ?_⟩
  · rw [size_push, hcapacity]
    unfold room
    cases hlimit : b.limit with
    | none => grind
    | some l => have := hfree l hlimit; grind
  · intro l hl
    rw [limit_push] at hl
    have hle := h.capacity_le l hl
    rw [hcapacity]
    unfold room
    rw [hl]
    grind
  · rw [hcapacity]
    unfold room
    cases hlimit : b.limit with
    | none => grind
    | some l => have := hfree l hlimit; grind

/-! ## Many characters -/

/-- **A buffer takes what there is room for under its limit, and leaves the rest.** -/
theorem fill_eq (cs : List Char) (h : b.Sound) :
    (b.fill cs).2 = cs.drop (b.space cs.length) ∧
      (b.fill cs).1.chars.toList = b.chars.toList ++ cs.take (b.space cs.length) ∧
      (b.fill cs).1.limit = b.limit ∧ (b.fill cs).1.Sound := by
  induction cs generalizing b with
  | nil => simp [fill, h]
  | cons c cs ih =>
    unfold fill
    cases hfull : b.isFull with
    | true =>
      -- No room at all: the limit is the size, and nothing is taken.
      have hspace : b.space (c :: cs).length = 0 := by
        simp [space, h.isFull_iff.mp hfull]
      rw [hspace]
      simp [h]
    | false =>
      obtain ⟨hleft, hchars, hlimit, hsound⟩ := ih (h.push hfull c)
      have hspace : b.space (c :: cs).length = (b.push c).space cs.length + 1 := by
        unfold space
        rw [limit_push, size_push]
        cases hl : b.limit with
        | none => rfl
        | some l =>
          have hlt := h.size_lt hfull l hl
          simp only
          omega
      rw [hspace]
      refine ⟨hleft, ?_, hlimit, hsound⟩
      simp [hchars, toList_push]

/-- Without a limit there is no need for a sound start: there is always room to be had. -/
theorem fill_unlimited (cs : List Char) (h : b.limit = none) :
    (b.fill cs).2 = [] ∧ (b.fill cs).1.chars.toList = b.chars.toList ++ cs ∧
      (b.fill cs).1.limit = none := by
  induction cs generalizing b with
  | nil => simp [fill, h]
  | cons c cs ih =>
    have hfull : b.isFull = false := by simp [isFull, h]
    obtain ⟨hleft, hchars, hlimit⟩ := ih (b := b.push c) h
    simp [fill, hfull, hleft, hchars, hlimit, toList_push]

end Buffer

end CLexer
