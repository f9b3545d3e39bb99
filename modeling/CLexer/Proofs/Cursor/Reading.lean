import CLexer.Cursor

/-!
# What a cursor has read

`Reads cur seg cur'` says that `cur'` is where `cur` comes to by reading `seg`: the characters are
gone from what is ahead, and the place has stepped over them. It is silent on the trail, the
characters given back and the end, because no routine of a scanner depends on what they were when
it began. Whatever it gives back it has read itself, and that much of the trail is known: one
character behind a single read (`exists_pushback_next`), two behind two (`exists_pushback_twice`).

So a lookahead that gives its character back reads nothing at all, in this sense, although the
cursor is not the same afterwards.
-/

set_option autoImplicit false

namespace CLexer

namespace Cursor

variable {cur cur' cur'' : Cursor} {c : Char} {rest seg seg' : List Char}

/-! ## Single calls -/

theorem next_of_nil (h : cur.ahead = []) :
    cur.next = (none, { cur with trail := [], ended := true }) := by
  unfold next
  rw [h]

theorem next_of_cons (h : cur.ahead = c :: rest) :
    cur.next = (some c, { cur with
      ahead := rest
      trail := (⟨c, cur.place⟩ :: cur.trail).take cur.depth
      returned := cur.returned - 1
      place := cur.place.step c }) := by
  unfold next
  rw [h]

theorem advance_succ_of_cons (h : cur.ahead = c :: rest) (n : Nat) :
    cur.advance (n + 1) = cur.next.2.advance n := by
  simp [advance, h]

theorem pushback_of_cons {m : Mark} {older : List Mark} (h : cur.trail = m :: older)
    (hm : m.char ≠ '\n') :
    cur.pushback = .ok { cur with
      ahead := m.char :: cur.ahead
      trail := older
      returned := cur.returned + 1
      place := m.before } := by
  unfold pushback
  rw [h]
  simp [hm]

@[simp] theorem depth_next (cur : Cursor) : cur.next.2.depth = cur.depth := by
  unfold next
  split <;> rfl

theorem depth_pushback (h : cur.pushback = .ok cur') : cur'.depth = cur.depth := by
  unfold pushback at h
  split at h
  · cases h
  · split at h
    · cases h
    · cases h
      rfl

/-! ## Reading -/

/-- The cursor comes to `cur'` by reading `seg`. -/
structure Reads (cur : Cursor) (seg : List Char) (cur' : Cursor) : Prop where
  ahead : cur.ahead = seg ++ cur'.ahead
  place : cur'.place = cur.place.steps seg
  depth : cur'.depth = cur.depth
  source : cur'.source = cur.source

theorem Reads.refl (cur : Cursor) : cur.Reads [] cur where
  ahead := rfl
  place := rfl
  depth := rfl
  source := rfl

theorem Reads.trans (h : cur.Reads seg cur') (h' : cur'.Reads seg' cur'') :
    cur.Reads (seg ++ seg') cur'' where
  ahead := by rw [h.ahead, h'.ahead, List.append_assoc]
  place := by rw [h'.place, h.place, Place.steps_append]
  depth := h'.depth.trans h.depth
  source := h'.source.trans h.source

theorem Reads.next_nil (h : cur.ahead = []) : cur.Reads [] cur.next.2 := by
  rw [next_of_nil h]
  exact ⟨rfl, rfl, rfl, rfl⟩

theorem Reads.next_cons (h : cur.ahead = c :: rest) : cur.Reads [c] cur.next.2 := by
  rw [next_of_cons h]
  exact ⟨h, rfl, rfl, rfl⟩

theorem Reads.next (cur : Cursor) : cur.Reads (cur.ahead.take 1) cur.next.2 := by
  cases h : cur.ahead with
  | nil => exact .next_nil h
  | cons c rest => exact .next_cons h

theorem Reads.advance (cur : Cursor) (n : Nat) : cur.Reads (cur.ahead.take n) (cur.advance n) := by
  induction n generalizing cur with
  | zero => exact .refl cur
  | succ n ih =>
    unfold Cursor.advance
    split
    · rename_i h
      rw [h]
      exact .refl cur
    · rename_i c rest h
      have hrest := ih cur.next.2
      rw [ahead_next, h, List.tail_cons] at hrest
      rw [h]
      exact (Reads.next_cons h).trans hrest

/-! ## Giving back what was just read -/

/-- A character that was just read can be given back, unless it is a line feed, and then nothing has
been read. -/
theorem exists_pushback_next (h : cur.ahead = c :: rest) (hc : c ≠ '\n') :
    ∃ cur', cur.next.2.pushback = .ok cur' ∧ cur.Reads [] cur' := by
  -- The depth is positive, so the mark of `c` is on the trail.
  obtain ⟨d, hd⟩ := Nat.exists_eq_succ_of_ne_zero (Nat.ne_of_gt cur.depth_pos)
  have htrail : cur.next.2.trail = ⟨c, cur.place⟩ :: cur.trail.take d := by
    rw [next_of_cons h]
    simp [hd]
  refine ⟨_, pushback_of_cons htrail hc, ?_⟩
  rw [next_of_cons h]
  exact ⟨h, rfl, rfl, rfl⟩

/-- With a depth of two the same goes for two characters. -/
theorem exists_pushback_twice {x y : Char} (h : cur.ahead = x :: y :: rest) (hx : x ≠ '\n')
    (hy : y ≠ '\n') (hdepth : 2 ≤ cur.depth) :
    ∃ cur₁ cur₂, (cur.advance 2).pushback = .ok cur₁ ∧ cur₁.pushback = .ok cur₂ ∧
      cur.Reads [] cur₂ := by
  obtain ⟨d, hd⟩ := Nat.exists_eq_add_of_le hdepth
  have hfirst := next_of_cons h
  have hahead : cur.next.2.ahead = y :: rest := by rw [hfirst]
  have hsecond := next_of_cons hahead
  have hadvance : cur.advance 2 = cur.next.2.next.2 := by
    simp [Cursor.advance, h]
  have htrail : (cur.advance 2).trail =
      ⟨y, cur.place.step x⟩ :: ⟨x, cur.place⟩ :: cur.trail.take d := by
    rw [hadvance, hsecond, hfirst]
    simp [hd, Nat.add_comm 2 d, List.take_take]
  refine ⟨_, _, pushback_of_cons htrail hy, pushback_of_cons rfl hx, ?_⟩
  rw [hadvance, hsecond, hfirst]
  exact ⟨h, rfl, rfl, rfl⟩

end Cursor

end CLexer
