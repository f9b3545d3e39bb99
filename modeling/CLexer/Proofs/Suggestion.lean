import CLexer.Tables
import Mathlib.Data.String.Basic
import Mathlib.Order.Bounds.Basic

/-!
# Suggestions for unknown directives

A directive that is not listed is answered with one of two entries: the one just below it in the
order of code points, or the one just above. No other entry is looked at, and yet none of them has a
longer start in common with the directive.

The reason is one fact about the order (`isPrefix_of_between`): the texts with a given start follow
each other without a gap. So whatever an entry further off has in common with the directive, the
neighbour on its side has too, and only the two neighbours are left to be compared.
-/

set_option autoImplicit false

namespace CLexer.Tables

/-- `near` has every start in common with the text that `far` has in common with it. -/
def SharesAsMuch (text near far : String) : Prop :=
  ∀ start : List Char, start <+: text.toList → start <+: far.toList → start <+: near.toList

/-- The entry to be suggested for a directive that is not listed: the first one above it, unless
there is none or the last one below it has a longer start in common with it. -/
inductive Suggested (directives : List String) (text : String) : String → Prop
  | above {entry : String} (hfirst : IsLeast {e | e ∈ directives ∧ text < e} entry)
      (hbelow : ∀ b, IsGreatest {e | e ∈ directives ∧ e < text} b → SharesAsMuch text entry b) :
      Suggested directives text entry
  | below {entry : String} (hlast : IsGreatest {e | e ∈ directives ∧ e < text} entry)
      (habove : ∀ a, IsLeast {e | e ∈ directives ∧ text < e} a → ¬ SharesAsMuch text a entry) :
      Suggested directives text entry

variable {directives : List String} {text near far : String}

/-! ## Starts in common -/

/-- What stands between two texts in the order has every start that both of them have. -/
theorem isPrefix_of_between {start a b c : List Char} (hab : ¬ b < a) (hbc : ¬ c < b)
    (ha : start <+: a) (hc : start <+: c) : start <+: b := by
  induction start generalizing a b c with
  | nil => exact List.nil_prefix
  | cons x start ih =>
    obtain ⟨a, rfl⟩ := ha
    obtain ⟨c, rfl⟩ := hc
    cases b with
    | nil => exact absurd (List.nil_lt_cons x _) hab
    | cons y b =>
      simp only [List.cons_append, List.cons_lt_cons_iff, not_or, not_and] at hab hbc
      obtain rfl : x = y := le_antisymm (not_lt.mp hab.1) (not_lt.mp hbc.1)
      have hb := ih (hab.2 rfl) (hbc.2 rfl) (List.prefix_append start a) (List.prefix_append start c)
      exact List.cons_prefix_cons.mpr ⟨rfl, hb⟩

/-- Nearer from below is at least as good. -/
theorem sharesAsMuch_of_below (hfar : far ≤ near) (hnear : near ≤ text) :
    SharesAsMuch text near far := by
  intro start htext hstart
  exact isPrefix_of_between (not_lt.mpr (String.le_iff_toList_le.mp hfar))
    (not_lt.mpr (String.le_iff_toList_le.mp hnear)) hstart htext

/-- Nearer from above is at least as good. -/
theorem sharesAsMuch_of_above (hnear : text ≤ near) (hfar : near ≤ far) :
    SharesAsMuch text near far := by
  intro start htext hstart
  exact isPrefix_of_between (not_lt.mpr (String.le_iff_toList_le.mp hnear))
    (not_lt.mpr (String.le_iff_toList_le.mp hfar)) htext hstart

theorem SharesAsMuch.trans {further : String} (h : SharesAsMuch text near far)
    (h' : SharesAsMuch text far further) : SharesAsMuch text near further :=
  fun start htext hfurther => h start htext (h' start htext hfurther)

/-- What two texts have in common is counted. -/
theorem isPrefix_take_commonStart {start xs ys : List Char} :
    start <+: ys.take (commonStart xs ys) ↔ start <+: xs ∧ start <+: ys := by
  fun_induction commonStart xs ys generalizing start with
  | case1 x xs ys ih =>
    cases start with
    | nil => simp
    | cons c start =>
      simp only [List.take_succ_cons, List.cons_prefix_cons, ih]
      exact and_and_left
  | case2 x xs y ys hne =>
    cases start with
    | nil => simp
    | cons c start =>
      simp only [List.take_zero, List.prefix_nil, List.cons_prefix_cons]
      exact ⟨fun h => absurd h (List.cons_ne_nil c start), fun ⟨hx, hy⟩ =>
        absurd (hx.1.symm.trans hy.1) hne⟩
  | case3 xs ys hnil =>
    rw [List.take_zero, List.prefix_nil]
    constructor
    · rintro rfl
      exact ⟨List.nil_prefix, List.nil_prefix⟩
    · rintro ⟨hxs, hys⟩
      -- One of the two texts is empty.
      cases xs with
      | nil => exact List.prefix_nil.mp hxs
      | cons x xs =>
        cases ys with
        | nil => exact List.prefix_nil.mp hys
        | cons y ys => exact absurd rfl (hnil x xs y ys rfl)

theorem commonStart_le (xs ys : List Char) : commonStart xs ys ≤ ys.length := by
  fun_induction commonStart xs ys with
  | case1 x xs ys ih => exact Nat.succ_le_succ ih
  | case2 => exact Nat.zero_le _
  | case3 => exact Nat.zero_le _

/-- Counting tells which of two entries has the longer start in common with a text. -/
theorem sharesAsMuch_iff : SharesAsMuch text near far ↔
    commonStart far.toList text.toList ≤ commonStart near.toList text.toList := by
  constructor
  · intro h
    obtain ⟨hfar, htext⟩ := isPrefix_take_commonStart.mp
      (List.prefix_refl (text.toList.take (commonStart far.toList text.toList)))
    have hshared := isPrefix_take_commonStart.mpr ⟨h _ htext hfar, htext⟩
    have hlength := hshared.length_le
    have hle := commonStart_le far.toList text.toList
    simp only [List.length_take] at hlength
    omega
  · intro hle start htext hfar
    have hshared := isPrefix_take_commonStart.mpr ⟨hfar, htext⟩
    exact (isPrefix_take_commonStart.mp (hshared.trans (List.take_prefix_take_left hle))).1

/-! ## The neighbours -/

/-- The place of a text in an increasing list parts the entries below it from the others. -/
theorem mem_around_place (hs : directives.Pairwise (· < ·)) (text entry : String) :
    (entry ∈ directives.takeWhile (· < text) ↔ entry ∈ directives ∧ entry < text) ∧
      (entry ∈ directives.dropWhile (· < text) ↔ entry ∈ directives ∧ text ≤ entry) := by
  induction directives with
  | nil => simp
  | cons d directives ih =>
    obtain ⟨hd, hs⟩ := List.pairwise_cons.mp hs
    obtain ⟨htake, hdrop⟩ := ih hs
    by_cases hlt : d < text
    · rw [List.takeWhile_cons_of_pos (by simpa using hlt),
        List.dropWhile_cons_of_pos (by simpa using hlt), List.mem_cons, List.mem_cons, htake, hdrop]
      constructor
      · constructor
        · rintro (rfl | ⟨hmem, hbelow⟩)
          · exact ⟨.inl rfl, hlt⟩
          · exact ⟨.inr hmem, hbelow⟩
        · rintro ⟨rfl | hmem, hbelow⟩
          · exact .inl rfl
          · exact .inr ⟨hmem, hbelow⟩
      · constructor
        · rintro ⟨hmem, habove⟩
          exact ⟨.inr hmem, habove⟩
        · rintro ⟨rfl | hmem, habove⟩
          · exact absurd hlt (not_lt.mpr habove)
          · exact ⟨hmem, habove⟩
    · -- From here on everything is at least as great as the text.
      have hall : ∀ e ∈ d :: directives, text ≤ e := by
        intro e he
        rcases List.mem_cons.mp he with rfl | he
        · exact not_lt.mp hlt
        · exact (not_lt.mp hlt).trans (le_of_lt (hd e he))
      rw [List.takeWhile_cons_of_neg (by simpa using hlt),
        List.dropWhile_cons_of_neg (by simpa using hlt)]
      constructor
      · exact ⟨fun h => absurd h (List.not_mem_nil), fun ⟨hmem, hbelow⟩ =>
          absurd hbelow (not_lt.mpr (hall entry hmem))⟩
      · exact ⟨fun h => ⟨h, hall entry h⟩, And.left⟩

theorem isGreatest_getLast? {entries : List String} (hs : entries.Pairwise (· < ·)) {last : String}
    (h : entries.getLast? = some last) : IsGreatest {e | e ∈ entries} last := by
  obtain ⟨before, rfl⟩ := List.getLast?_eq_some_iff.mp h
  refine ⟨List.mem_append_right before List.mem_cons_self, fun e he => ?_⟩
  rcases List.mem_append.mp he with he | he
  · exact le_of_lt ((List.pairwise_append.mp hs).2.2 e he last List.mem_cons_self)
  · exact le_of_eq (List.mem_singleton.mp he)

theorem isLeast_head? {entries : List String} (hs : entries.Pairwise (· < ·)) {first : String}
    (h : entries.head? = some first) : IsLeast {e | e ∈ entries} first := by
  obtain ⟨behind, rfl⟩ := List.head?_eq_some_iff.mp h
  refine ⟨List.mem_cons_self, fun e he => ?_⟩
  rcases List.mem_cons.mp he with rfl | he
  · exact le_refl e
  · exact le_of_lt ((List.pairwise_cons.mp hs).1 e he)

theorem isGreatest_below (hs : directives.Pairwise (· < ·)) {b : String}
    (h : (directives.takeWhile (· < text)).getLast? = some b) :
    IsGreatest {e | e ∈ directives ∧ e < text} b := by
  have hlast := isGreatest_getLast? (hs.sublist (List.takeWhile_sublist _)) h
  simpa only [(mem_around_place hs text _).1] using hlast

theorem isLeast_notBelow (hs : directives.Pairwise (· < ·)) {a : String}
    (h : (directives.dropWhile (· < text)).head? = some a) :
    IsLeast {e | e ∈ directives ∧ text ≤ e} a := by
  have hfirst := isLeast_head? (hs.sublist (List.dropWhile_sublist _)) h
  simpa only [(mem_around_place hs text _).2] using hfirst

theorem notBelow_of_none (hs : directives.Pairwise (· < ·))
    (h : (directives.takeWhile (· < text)).getLast? = none) : ∀ e ∈ directives, text ≤ e := by
  intro e he
  by_contra hlt
  have hmem := (mem_around_place hs text e).1.mpr ⟨he, not_le.mp hlt⟩
  rw [List.getLast?_eq_none_iff.mp h] at hmem
  cases hmem

theorem below_of_none (hs : directives.Pairwise (· < ·))
    (h : (directives.dropWhile (· < text)).head? = none) : ∀ e ∈ directives, e < text := by
  intro e he
  by_contra hle
  have hmem := (mem_around_place hs text e).2.mpr ⟨he, not_lt.mp hle⟩
  rw [List.head?_eq_none_iff.mp h] at hmem
  cases hmem

/-- If the first entry that is not below the text is another text, then the text is not listed. -/
theorem isLeast_above {a : String} (h : IsLeast {e | e ∈ directives ∧ text ≤ e} a) (hne : a ≠ text) :
    IsLeast {e | e ∈ directives ∧ text < e} a ∧ text ∉ directives := by
  obtain ⟨⟨hmem, hle⟩, hfirst⟩ := h
  refine ⟨⟨⟨hmem, lt_of_le_of_ne hle hne.symm⟩, fun e he => hfirst ⟨he.1, le_of_lt he.2⟩⟩, ?_⟩
  exact fun htext => hne (le_antisymm (hfirst ⟨htext, le_refl text⟩) hle)

/-! ## The answer -/

/-- Looking up finds the text, or has nothing to suggest because nothing is listed, or suggests. -/
theorem lookUpDirective_cases (hs : directives.Pairwise (· < ·)) (text : String) :
    (lookUpDirective directives text = .found ∧ text ∈ directives) ∨
      (lookUpDirective directives text = .unknown none ∧ directives = []) ∨
      ∃ d, lookUpDirective directives text = .unknown (some d) ∧ text ∉ directives ∧
        Suggested directives text d := by
  unfold lookUpDirective
  dsimp only
  cases hb : (directives.takeWhile (· < text)).getLast? with
  | none =>
    have hbelow := notBelow_of_none hs hb
    have hnone : ∀ b, ¬ IsGreatest {e | e ∈ directives ∧ e < text} b :=
      fun b h => absurd h.1.2 (not_lt.mpr (hbelow b h.1.1))
    cases ha : (directives.dropWhile (· < text)).head? with
    | none =>
      have habove := below_of_none hs ha
      refine .inr (.inl ⟨rfl, List.eq_nil_iff_forall_not_mem.mpr fun e he => ?_⟩)
      exact absurd (habove e he) (not_lt.mpr (hbelow e he))
    | some a =>
      have hfirst := isLeast_notBelow hs ha
      dsimp only
      split
      · rename_i heq
        exact .inl ⟨rfl, heq ▸ hfirst.1.1⟩
      · rename_i hne
        obtain ⟨habove, htext⟩ := isLeast_above hfirst hne
        exact .inr (.inr ⟨a, rfl, htext, .above habove fun b h => absurd h (hnone b)⟩)
  | some b =>
    have hlast := isGreatest_below hs hb
    cases ha : (directives.dropWhile (· < text)).head? with
    | none =>
      have habove := below_of_none hs ha
      refine .inr (.inr ⟨b, rfl, fun htext => lt_irrefl text (habove text htext), ?_⟩)
      exact .below hlast fun a h => absurd h.1.2 (lt_asymm (habove a h.1.1))
    | some a =>
      have hfirst := isLeast_notBelow hs ha
      dsimp only
      split
      · rename_i heq
        exact .inl ⟨rfl, heq ▸ hfirst.1.1⟩
      · rename_i hne
        obtain ⟨habove, htext⟩ := isLeast_above hfirst hne
        split
        · rename_i hlonger
          refine .inr (.inr ⟨b, rfl, htext, .below hlast fun a' h => ?_⟩)
          rw [h.unique habove, sharesAsMuch_iff, not_le]
          exact hlonger
        · rename_i hlonger
          refine .inr (.inr ⟨a, rfl, htext, .above habove fun b' h => ?_⟩)
          rw [h.unique hlast, sharesAsMuch_iff]
          exact not_lt.mp hlonger

/-- **No entry has a longer start in common with a directive than the one suggested for it.** -/
theorem Suggested.best {d : String} (hs : directives.Pairwise (· < ·)) (htext : text ∉ directives)
    (h : Suggested directives text d) :
    d ∈ directives ∧ ∀ e ∈ directives, SharesAsMuch text d e := by
  have hside : ∀ e ∈ directives, e < text ∨ text < e :=
    fun e he => lt_or_gt_of_ne fun heq => htext (heq ▸ he)
  cases h with
  | above hfirst hbelow =>
    refine ⟨hfirst.1.1, fun e he => ?_⟩
    rcases hside e he with hlt | hgt
    · -- The last entry below is between `e` and the text, and has no more than `d`.
      cases hb : (directives.takeWhile (· < text)).getLast? with
      | none => exact absurd hlt (not_lt.mpr (notBelow_of_none hs hb e he))
      | some b =>
        have hlast := isGreatest_below hs hb
        exact (hbelow b hlast).trans
          (sharesAsMuch_of_below (hlast.2 ⟨he, hlt⟩) (le_of_lt hlast.1.2))
    · exact sharesAsMuch_of_above (le_of_lt hfirst.1.2) (hfirst.2 ⟨he, hgt⟩)
  | below hlast habove =>
    refine ⟨hlast.1.1, fun e he => ?_⟩
    rcases hside e he with hlt | hgt
    · exact sharesAsMuch_of_below (hlast.2 ⟨he, hlt⟩) (le_of_lt hlast.1.2)
    · cases ha : (directives.dropWhile (· < text)).head? with
      | none => exact absurd hgt (lt_asymm (below_of_none hs ha e he))
      | some a =>
        have hne : a ≠ text := by
          rintro rfl
          exact htext (isLeast_notBelow hs ha).1.1
        obtain ⟨hfirst, -⟩ := isLeast_above (isLeast_notBelow hs ha) hne
        have hless := habove a hfirst
        rw [sharesAsMuch_iff, not_le] at hless
        exact (sharesAsMuch_iff.mpr (le_of_lt hless)).trans
          (sharesAsMuch_of_above (le_of_lt hfirst.1.2) (hfirst.2 ⟨he, hgt⟩))

/-- **What is suggested for a directive is the best of all that is listed.** -/
theorem suggestion_is_best (t : Tables) (text : String) :
    (t.lookUp text = .found ↔ text ∈ t.directives) ∧
      (t.lookUp text = .unknown none ↔ t.directives = []) ∧
      (text ∉ t.directives → t.directives ≠ [] →
        ∃ d ∈ t.directives, t.lookUp text = .unknown (some d) ∧ Suggested t.directives text d ∧
          ∀ e ∈ t.directives, SharesAsMuch text d e) := by
  unfold lookUp
  rcases lookUpDirective_cases t.directives_increase text with
    ⟨hanswer, htext⟩ | ⟨hanswer, hnil⟩ | ⟨d, hanswer, htext, hd⟩
  · rw [hanswer]
    refine ⟨iff_of_true rfl htext, ?_, fun hmissing => absurd htext hmissing⟩
    exact iff_of_false DirectiveMatch.noConfusion (List.ne_nil_of_mem htext)
  · rw [hanswer]
    refine ⟨?_, iff_of_true rfl hnil, fun _ hsome => absurd hnil hsome⟩
    exact iff_of_false DirectiveMatch.noConfusion (hnil ▸ List.not_mem_nil)
  · obtain ⟨hmem, hbest⟩ := hd.best t.directives_increase htext
    rw [hanswer]
    refine ⟨?_, ?_, fun _ _ => ⟨d, hmem, rfl, hd, hbest⟩⟩
    · exact iff_of_false DirectiveMatch.noConfusion htext
    · exact iff_of_false (by simp) (List.ne_nil_of_mem hmem)

/-- The neighbour below may be the better one: `#endif`, and not the `#error` above. -/
theorem suggestion_is_best_of_typo :
    ("#endf" ∉ standard.directives ∧ standard.directives ≠ []) ∧
      standard.lookUp "#endf" = .unknown (some "#endif") ∧
      ∃ d ∈ standard.directives, standard.lookUp "#endf" = .unknown (some d) ∧
        Suggested standard.directives "#endf" d ∧
        ∀ e ∈ standard.directives, SharesAsMuch "#endf" d e := by
  have hmissing : "#endf" ∉ standard.directives := by decide +kernel
  have hsome : standard.directives ≠ [] := List.cons_ne_nil _ _
  have hanswer : standard.lookUp "#endf" = .unknown (some "#endif") := by decide +kernel
  exact ⟨⟨hmissing, hsome⟩, hanswer, (suggestion_is_best standard "#endf").2.2 hmissing hsome⟩

end CLexer.Tables
