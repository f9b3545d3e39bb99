import CLexer.Proofs.Cursor.Index

/-!
# Why a character is not taken back

A cursor that gives nothing back says why: the end of the text was seen, the character is a line
feed, nothing was read, or the depth is exhausted. It tells the four apart by what it holds. There is
a mark left or there is none, and if there is none, characters were given back or not. None of this
can be seen from outside. Here the causes are told by the answers alone: by the index, by how many
characters are outstanding, and by whether the end was an answer.

Three of the causes mean what they say. The fourth is named whenever characters are outstanding and no
mark is left. Marks run out at the depth of the cursor, but they also run out where everything that was
read has been given back. Nothing is left to be given back there, and the depth that is called
exhausted need not be.
-/

set_option autoImplicit false

namespace CLexer

namespace Cursor

/-! ## Characters outstanding -/

def countOutstanding (n : Nat) : Answer → Nat
  | .read (some _) => n - 1
  | .read none => n
  | .returned => n + 1
  | .refused _ => n

/-- How many characters were given back and not read again. -/
def outstanding (as : List Answer) : Nat := as.foldl countOutstanding 0

/-- The index is behind the furthest one by the characters that are outstanding, and an answer keeps
it so. -/
theorem Tally.outstanding_count {t : Tally} {n : Nat} (h : t.index + n = t.furthest) (a : Answer) :
    (t.count a).index + (countOutstanding n a : Nat) = (t.count a).furthest := by
  cases a with
  | read c =>
    cases c with
    | none => exact h
    | some c =>
      simp only [Tally.count, countOutstanding]
      omega
  | returned =>
    simp only [Tally.count, countOutstanding]
    omega
  | refused cause => exact h

theorem Tally.outstanding_foldl (as : List Answer) {t : Tally} {n : Nat}
    (h : t.index + n = t.furthest) :
    (as.foldl Tally.count t).index + (as.foldl countOutstanding n : Nat) =
      (as.foldl Tally.count t).furthest := by
  induction as generalizing t n with
  | nil => exact h
  | cons a as ih => exact ih (Tally.outstanding_count h a)

theorem Tally.index_add_outstanding (as : List Answer) :
    (ofAnswers as).index + outstanding as = (ofAnswers as).furthest :=
  outstanding_foldl as rfl

/-! ## The four causes -/

/-- The causes for which a cursor gives nothing back at index `i`, when `n` characters are outstanding
and the end was seen or not. -/
inductive Blocked (text : List Char) (depth i n : Nat) : Bool → PushbackCause → Prop
  | pastEnd : Blocked text depth i n true .pastEnd
  | lineFeed (hpos : 0 < i) (hroom : n < depth) (hbreak : text[i - 1]? = some '\n') :
      Blocked text depth i n false .lineFeed
  | nothingRead (hstart : i = 0) (hnone : n = 0) : Blocked text depth i n false .nothingRead
  | depthExhausted (hsome : 0 < n) (hused : n = depth ∨ i = 0) :
      Blocked text depth i n false (.depthExhausted depth)

variable {text : List Char} {i m : Nat} {cur : Cursor} {cause : PushbackCause}

/-- Without a mark, the budget says what has used the marks up. -/
theorem Stands.blockedCause (h : Stands text i m cur) (hmarks : cur.trail = []) :
    Blocked text cur.depth i (m - i) cur.ended cur.blockedCause := by
  have hle := h.index_le
  have hfar := h.furthest_le
  unfold Cursor.blockedCause
  rw [h.returned]
  cases hended : cur.ended with
  | true =>
    -- At the end nothing is outstanding, because all of the text is read.
    obtain ⟨-, rfl⟩ := h.atEnd hended
    rw [if_neg (by omega), if_pos rfl]
    exact .pastEnd
  | false =>
    have hbudget := h.budget hended
    rw [hmarks, List.length_nil] at hbudget
    have hdepth := cur.depth_pos
    by_cases hsome : 0 < m - i
    · rw [if_pos hsome]
      exact .depthExhausted hsome (by omega)
    · rw [if_neg hsome, if_neg (by decide)]
      exact .nothingRead (by omega) (by omega)

theorem Stands.blocked (h : Stands text i m cur) (hrefused : cur.pushback = .error cause) :
    Blocked text cur.depth i (m - i) cur.ended cause := by
  unfold Cursor.pushback at hrefused
  split at hrefused
  · rename_i hmarks
    cases hrefused
    exact h.blockedCause hmarks
  · rename_i mark older hmarks
    split at hrefused
    · -- A mark is left, and it is the one of the last character.
      rename_i hbreak
      cases hrefused
      have htrail := h.trail
      rw [hmarks] at htrail
      obtain ⟨j, rfl, hchar, -, -⟩ := htrail
      cases hended : cur.ended with
      | true =>
        have hnone := (h.atEnd hended).1
        rw [hmarks] at hnone
        cases hnone
      | false =>
        have hbudget := h.budget hended
        rw [hmarks, List.length_cons] at hbudget
        exact .lineFeed (Nat.succ_pos j) (by omega) (by rw [Nat.add_sub_cancel, hchar, hbreak])
    · cases hrefused

/-! Of the four, one at most applies. -/

section Blocked

variable {depth n : Nat} {ended : Bool} (h : Blocked text depth i n ended cause)

include h

theorem Blocked.pastEnd_iff : cause = .pastEnd ↔ ended = true := by
  cases h with
  | pastEnd => simp
  | lineFeed => simp
  | nothingRead => simp
  | depthExhausted => simp

theorem Blocked.lineFeed_iff :
    cause = .lineFeed ↔ ended = false ∧ n < depth ∧ 0 < i ∧ text[i - 1]? = some '\n' := by
  cases h with
  | pastEnd => simp
  | lineFeed hpos hroom hbreak => simp [hpos, hroom, hbreak]
  | nothingRead hstart => simp [hstart]
  | depthExhausted hsome hused =>
    simp only [reduceCtorEq, false_iff, true_and]
    omega

theorem Blocked.nothingRead_iff : cause = .nothingRead ↔ ended = false ∧ n = 0 ∧ i = 0 := by
  cases h with
  | pastEnd => simp
  | lineFeed hpos =>
    simp only [reduceCtorEq, false_iff, true_and]
    omega
  | nothingRead hstart hnone => simp [hstart, hnone]
  | depthExhausted hsome =>
    simp only [reduceCtorEq, false_iff, true_and]
    omega

theorem Blocked.depthExhausted_iff :
    cause = .depthExhausted depth ↔ ended = false ∧ 0 < n ∧ (n = depth ∨ i = 0) := by
  cases h with
  | pastEnd => simp
  | lineFeed hpos hroom =>
    simp only [reduceCtorEq, false_iff, true_and]
    omega
  | nothingRead hstart hnone => simp [hnone]
  | depthExhausted hsome hused => simp [hsome, hused]

/-- Of all depths it is the one of the cursor that is called exhausted. -/
theorem Blocked.depth_eq {k : Nat} (hcause : cause = .depthExhausted k) : k = depth := by
  cases h with
  | depthExhausted => exact (PushbackCause.depthExhausted.inj hcause).symm
  | _ => cases hcause

end Blocked

/-! ## Messages -/

theorem PushbackCause.head?_message_depthExhausted (n : Nat) :
    (depthExhausted n).message.toList.head? = some 'p' := by
  have hstart : "pushback depth of ".toList = 'p' :: "ushback depth of ".toList := by decide
  show ("pushback depth of " ++ toString n ++ " exhausted").toList.head? = some 'p'
  rw [String.toList_append, String.toList_append, hstart]
  rfl

/-- The messages tell the causes apart, if not the depths. -/
theorem PushbackCause.eq_of_message_eq {a b : PushbackCause}
    (hdepth : ∀ n k, a = .depthExhausted n → b = .depthExhausted k → n = k)
    (h : a.message = b.message) : a = b := by
  have hfirst := congrArg (fun s => s.toList.head?) h
  have hfixed : ∀ a ∈ [pastEnd, lineFeed, nothingRead], ∀ b ∈ [pastEnd, lineFeed, nothingRead],
      a.message = b.message → a = b := by decide
  cases a with
  | depthExhausted n =>
    cases b with
    | depthExhausted k => rw [hdepth n k rfl rfl]
    | _ =>
      rw [head?_message_depthExhausted] at hfirst
      exact absurd hfirst (by decide)
  | _ =>
    cases b with
    | depthExhausted k =>
      rw [head?_message_depthExhausted] at hfirst
      exact absurd hfirst (by decide)
    | _ => exact hfixed _ (by decide) _ (by decide) h

/-- What a cursor says when it gives nothing back says which cause applies. -/
theorem Blocked.message_iff {depth n : Nat} {ended : Bool} (h : Blocked text depth i n ended cause)
    (named : PushbackCause) (hnamed : ∀ k, named = .depthExhausted k → k = depth) :
    cause.message = named.message ↔ cause = named := by
  refine ⟨PushbackCause.eq_of_message_eq fun k l hk hl => ?_, congrArg PushbackCause.message⟩
  rw [h.depth_eq hk, hnamed l hl]

/-! ## After any calls -/

/-- **What a refusal says, told by the answers.** Open a cursor with any depth it can be opened with,
make any calls, and let the next attempt to give a character back fail. -/
theorem refusal_message_iff {text : List Char} {depth : Int} {source : String} {cur : Cursor}
    {cause : PushbackCause} (h : open? text depth source = some cur) (ks : List Call)
    (hrefused : (cur.calls ks).2.pushback = .error cause) :
    let answers := (cur.calls ks).1
    let t := Tally.ofAnswers answers
    (cause.message = "cannot push back past end of input" ↔ t.endSeen = true) ∧
      (cause.message = "cannot push back a newline" ↔
        t.endSeen = false ∧ outstanding answers < depth ∧
          0 < t.index ∧ text[t.index.toNat - 1]? = some '\n') ∧
      (cause.message = "nothing to push back" ↔
        t.endSeen = false ∧ outstanding answers = 0 ∧ t.index = 0) ∧
      (cause.message = "pushback depth of " ++ toString depth ++ " exhausted" ↔
        t.endSeen = false ∧ 0 < outstanding answers ∧
          (outstanding answers = depth ∨ t.index = 0)) ∧
      (t.index = 0 → (cur.calls ks).2.position = ⟨1, 0⟩) := by
  intro answers t
  obtain ⟨i, m, htally, hs⟩ := (counted_open h).calls ks
  have ht : t = ⟨i, m, (cur.calls ks).2.ended⟩ := htally
  have hcount : t.index + outstanding answers = t.furthest := Tally.index_add_outstanding answers
  have hblocked := hs.blocked hrefused
  have hdepth : ((cur.calls ks).2.depth : Int) = depth := by
    rw [depth_calls, depth_of_open h]
  have hn : outstanding answers = m - i := by
    rw [ht] at hcount
    simp only at hcount
    omega
  rw [← hn] at hblocked
  rw [← hdepth, ht]
  simp only [Int.natCast_eq_zero, Int.natCast_pos, Int.ofNat_lt, Int.toNat_natCast, Int.natCast_inj]
  refine ⟨?_, ?_, ?_, ?_, ?_⟩
  · rw [← hblocked.pastEnd_iff]
    exact hblocked.message_iff .pastEnd fun k hk => by cases hk
  · rw [← hblocked.lineFeed_iff]
    exact hblocked.message_iff .lineFeed fun k hk => by cases hk
  · rw [← hblocked.nothingRead_iff]
    exact hblocked.message_iff .nothingRead fun k hk => by cases hk
  · rw [← hblocked.depthExhausted_iff]
    exact hblocked.message_iff (.depthExhausted _) fun k hk =>
      (PushbackCause.depthExhausted.inj hk).symm
  · rintro rfl
    exact hs.position_eq

/-- Of three characters two were given back, which is all that the depth allows. -/
theorem refusal_message_iff_at_depth_two :
    let cur : Cursor := { ahead := ['a', 'b', 'c'], depth := 2 }
    let calls : List Call := [.next, .next, .next, .pushback, .pushback]
    let cause : PushbackCause := .depthExhausted 2
    open? ['a', 'b', 'c'] 2 = some cur ∧ (cur.calls calls).2.pushback = .error cause ∧
      outstanding (cur.calls calls).1 = 2 ∧
      cause.message = "pushback depth of " ++ toString (2 : Int) ++ " exhausted" := by
  intro cur calls cause
  have hopen : open? ['a', 'b', 'c'] 2 = some cur := rfl
  have hrefused : (cur.calls calls).2.pushback = .error cause := rfl
  obtain ⟨-, -, -, hdepth, -⟩ := refusal_message_iff hopen calls hrefused
  exact ⟨hopen, hrefused, rfl, hdepth.mpr ⟨rfl, by decide, .inl rfl⟩⟩

/-- The one character that was read has been given back. Nothing is left to be given back, and of a
depth of two only one is used, but it is the depth that is called exhausted. -/
theorem depth_exhausted_with_depth_left :
    let cur : Cursor := { ahead := ['a'], depth := 2 }
    let (answers, after) := cur.calls [.next, .pushback]
    let cause : PushbackCause := .depthExhausted 2
    open? ['a'] 2 = some cur ∧ after.pushback = .error cause ∧ outstanding answers = 1 ∧
      (Tally.ofAnswers answers).endSeen = false ∧ (Tally.ofAnswers answers).index = 0 ∧
      after.position = ⟨1, 0⟩ ∧ cause.message = "pushback depth of 2 exhausted" ∧
      cause.message ≠ "nothing to push back" :=
  ⟨rfl, rfl, rfl, rfl, rfl, rfl, by decide, by decide⟩

end Cursor

end CLexer
