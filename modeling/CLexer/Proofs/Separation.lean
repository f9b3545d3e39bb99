import CLexer.Proofs.Lexeme

/-!
# Blanks end lexemes

No lexeme but a literal goes on over a blank. So a recogniser that is given a text with a blank
behind it recognises what it does in the text alone, and a text may end in the same way as it goes
on behind a blank. `Separated` is what the two have in common.

For literals only a line feed does that, and not behind a backslash; what is closed already stays as
it is whatever follows.
-/

set_option autoImplicit false

namespace CLexer.Lexeme

open CLexer.Text

/-- There is nothing, or a blank first. -/
def Separated (behind : List Char) : Prop := ∀ c ∈ behind.head?, isBlank c = true

theorem separated_nil : Separated [] := fun c hc => by cases hc

theorem separated_cons {b : Char} (hb : isBlank b = true) (behind : List Char) :
    Separated (b :: behind) := by
  intro c hc
  cases hc
  exact hb

/-- The six blanks. -/
theorem eq_of_isBlank {c : Char} (h : isBlank c = true) :
    c = ' ' ∨ c = '\t' ∨ c = '\n' ∨ c = '\x0b' ∨ c = '\x0c' ∨ c = '\r' := by
  simp only [isBlank, Bool.or_eq_true, beq_iff_eq, Bool.and_eq_true, decide_eq_true_eq] at h
  rcases h with rfl | ⟨hlow, hhigh⟩
  · exact .inl rfl
  · -- Between the two there are five codes.
    have hcode : ∀ d : Char, c.toNat = d.toNat → c = d := fun d => Char.toNat_inj.mp
    have hlow' : 9 ≤ c.toNat := hlow
    have hhigh' : c.toNat ≤ 13 := hhigh
    have hcases : c.toNat = 9 ∨ c.toNat = 10 ∨ c.toNat = 11 ∨ c.toNat = 12 ∨ c.toNat = 13 := by
      omega
    rcases hcases with h | h | h | h | h
    · exact .inr (.inl (hcode '\t' h))
    · exact .inr (.inr (.inl (hcode '\n' h)))
    · exact .inr (.inr (.inr (.inl (hcode '\x0b' h))))
    · exact .inr (.inr (.inr (.inr (.inl (hcode '\x0c' h)))))
    · exact .inr (.inr (.inr (.inr (.inr (hcode '\r' h)))))

/-- What holds of the six blanks holds of every blank. -/
theorem forall_isBlank {p : Char → Prop}
    (h : p ' ' ∧ p '\t' ∧ p '\n' ∧ p '\x0b' ∧ p '\x0c' ∧ p '\r') {c : Char}
    (hc : isBlank c = true) : p c := by
  obtain ⟨hspace, htab, hfeed, hvertical, hform, hreturn⟩ := h
  rcases eq_of_isBlank hc with rfl | rfl | rfl | rfl | rfl | rfl <;> assumption

variable {text behind : List Char} {p : Char → Bool}

theorem not_isBlank_of (hp : ∀ c, isBlank c = true → p c = false) {c : Char} (hc : p c = true) :
    isBlank c = false := by
  cases hblank : isBlank c with
  | false => rfl
  | true =>
    rw [hp c hblank] at hc
    cases hc

/-! ## Runs of characters -/

theorem takeWhile_separated (hp : ∀ c, isBlank c = true → p c = false) (h : Separated behind)
    (text : List Char) : (text ++ behind).takeWhile p = text.takeWhile p :=
  takeWhile_append_stop (fun c hc => hp c (h c hc)) text

theorem dropWhile_separated (hp : ∀ c, isBlank c = true → p c = false) (h : Separated behind)
    (text : List Char) : (text ++ behind).dropWhile p = text.dropWhile p ++ behind :=
  dropWhile_append_stop (fun c hc => hp c (h c hc)) text

theorem not_isWordChar_of_isBlank (c : Char) (hc : isBlank c = true) : isWordChar c = false :=
  forall_isBlank (p := fun c => isWordChar c = false) (by decide) hc

theorem not_isAlpha_of_isBlank (c : Char) (hc : isBlank c = true) : c.isAlpha = false :=
  forall_isBlank (p := fun c => c.isAlpha = false) (by decide) hc

theorem word_separated (h : Separated behind) (text : List Char) :
    word (text ++ behind) = word text :=
  takeWhile_separated not_isWordChar_of_isBlank h text

theorem letters_separated (h : Separated behind) (text : List Char) :
    letters (text ++ behind) = letters text :=
  takeWhile_separated not_isAlpha_of_isBlank h text

/-! ## Operators -/

/-- What an operator goes on with is no blank. -/
theorem not_continuesOperator_of_isBlank {c : Char} (hc : isBlank c = true)
    (operator : List Char) : continuesOperator operator c = false := by
  have hlisted : operatorContinuations.all (fun entry => entry.2.all (!isBlank ·)) = true := by
    decide
  unfold continuesOperator
  split
  · rename_i cs hlookup
    obtain ⟨before, after, hentry, -⟩ := List.lookup_eq_some_iff.mp hlookup
    have hmem : (operator, cs) ∈ operatorContinuations := by
      rw [hentry]
      exact List.mem_append_right before List.mem_cons_self
    by_contra hcontains
    have hentry := List.all_eq_true.mp (List.all_eq_true.mp hlisted _ hmem) c
      (by simpa using hcontains)
    rw [hc] at hentry
    cases hentry
  · rfl

theorem operatorTail_separated (h : Separated behind) (operator text : List Char) :
    operatorTail operator (text ++ behind) = operatorTail operator text := by
  induction text generalizing operator with
  | nil =>
    cases behind with
    | nil => rfl
    | cons b behind =>
      have hb := not_continuesOperator_of_isBlank (h b rfl) operator
      simp [operatorTail, hb]
  | cons c text ih => simp only [List.cons_append, operatorTail, ih]

/-! ## Numbers -/

theorem not_isDigit_of_isBlank (base : Base) (c : Char) (hc : isBlank c = true) :
    base.isDigit c = false :=
  forall_isBlank (p := fun c => base.isDigit c = false) (by cases base <;> decide) hc

theorem not_isEither_of_isBlank {lower upper c : Char} (hl : isBlank lower = false)
    (hu : isBlank upper = false) (hc : isBlank c = true) : isEither lower upper c = false := by
  by_contra h
  simp only [isEither, Bool.or_eq_true, beq_iff_eq, Bool.not_eq_false] at h
  rcases h with rfl | rfl
  · rw [hl] at hc
    cases hc
  · rw [hu] at hc
    cases hc

theorem longSuffix_separated (h : Separated behind) (text : List Char) :
    longSuffix (text ++ behind) = longSuffix text := by
  cases text with
  | nil =>
    cases behind with
    | nil => rfl
    | cons b behind =>
      have hb : isEither 'l' 'L' b = false :=
        not_isEither_of_isBlank (by decide) (by decide) (h b rfl)
      simp [longSuffix, hb]
  | cons c text => rfl

theorem suffix_separated (h : Separated behind) (integer : Bool) (text : List Char) :
    suffix integer (text ++ behind) = suffix integer text := by
  cases text with
  | nil =>
    cases behind with
    | nil => rfl
    | cons b behind =>
      have hu : isEither 'u' 'U' b = false :=
        not_isEither_of_isBlank (by decide) (by decide) (h b rfl)
      have hl : isEither 'l' 'L' b = false :=
        not_isEither_of_isBlank (by decide) (by decide) (h b rfl)
      simp [suffix, longSuffix, hu, hl]
  | cons c text =>
    have hlong := longSuffix_separated h (c :: text)
    rw [List.cons_append] at hlong
    simp only [List.cons_append, suffix, longSuffix_separated h, hlong]

theorem exponentSign_separated (h : Separated behind) (text : List Char) :
    exponentSign (text ++ behind) = exponentSign text := by
  cases text with
  | nil =>
    cases behind with
    | nil => rfl
    | cons b behind =>
      have hb : (b == '+' || b == '-') = false :=
        not_isEither_of_isBlank (by decide) (by decide) (h b rfl)
      simp [exponentSign, hb]
  | cons c text => rfl

theorem exponentAndSuffix_separated (h : Separated behind) (integer : Bool) (text : List Char) :
    exponentAndSuffix integer (text ++ behind) = exponentAndSuffix integer text := by
  cases text with
  | nil =>
    cases behind with
    | nil => rfl
    | cons b behind =>
      have hb : isEither 'e' 'E' b = false :=
        not_isEither_of_isBlank (by decide) (by decide) (h b rfl)
      have hsuffix := suffix_separated h integer []
      rw [List.nil_append] at hsuffix
      simp only [List.nil_append, exponentAndSuffix, hb, hsuffix]
      rfl
  | cons e rest =>
    have hdrop : (rest ++ behind).drop (exponentSign rest).length =
        rest.drop (exponentSign rest).length ++ behind :=
      List.drop_append_of_le_length (exponentSign_isPrefix rest).length_le
    have hdigit : ∀ c, isBlank c = true → c.isDigit = false := not_isDigit_of_isBlank .decimal
    have hsuffix := suffix_separated h integer (e :: rest)
    rw [List.cons_append] at hsuffix
    simp only [List.cons_append, exponentAndSuffix, exponentSign_separated h, hdrop,
      takeWhile_separated hdigit h, dropWhile_separated hdigit h, suffix_separated h, hsuffix]

theorem fractionAndRest_separated (h : Separated behind) (base : Base) (text : List Char) :
    fractionAndRest base (text ++ behind) = fractionAndRest base text := by
  have hdigit := not_isDigit_of_isBlank base
  by_cases hpoint : text.head? = some '.'
  · obtain ⟨rest, rfl⟩ := List.head?_eq_some_iff.mp hpoint
    simp only [List.cons_append, fractionAndRest, takeWhile_separated hdigit h,
      dropWhile_separated hdigit h, exponentAndSuffix_separated h]
  · have hpoint' : (text ++ behind).head? ≠ some '.' := by
      cases text with
      | nil => exact fun hb => absurd (h '.' hb) (by decide)
      | cons c text => exact hpoint
    rw [fractionAndRest_of_head_ne hpoint, fractionAndRest_of_head_ne hpoint',
      exponentAndSuffix_separated h]

theorem digitsAndRest_separated (h : Separated behind) (base : Base) (text : List Char) :
    digitsAndRest base (text ++ behind) = digitsAndRest base text := by
  have hdigit := not_isDigit_of_isBlank base
  simp only [digitsAndRest, takeWhile_separated hdigit h, dropWhile_separated hdigit h,
    fractionAndRest_separated h]

theorem mayFollowHexMark_separated (h : Separated behind) (text : List Char) :
    mayFollowHexMark (text ++ behind) = mayFollowHexMark text := by
  cases text with
  | nil =>
    cases behind with
    | nil => rfl
    | cons b behind =>
      exact forall_isBlank (p := fun b => (isHexDigit b || b == '.') = false) (by decide) (h b rfl)
  | cons c text => rfl

/-- A blank does not make a decimal number a hexadecimal one. -/
theorem decimal_separated (h : Separated behind)
    (hdecimal : ∀ x rest, text = '0' :: x :: rest → isEither 'x' 'X' x = false) :
    ∀ x rest, text ++ behind = '0' :: x :: rest → isEither 'x' 'X' x = false := by
  intro x rest htext
  match text with
  | [] =>
    rw [List.nil_append] at htext
    exact absurd (h '0' (by rw [htext]; rfl)) (by decide)
  | [c] =>
    obtain ⟨-, hbehind⟩ := List.cons.inj htext
    have hx : behind.head? = some x := congrArg List.head? hbehind
    exact not_isEither_of_isBlank (by decide) (by decide) (h x hx)
  | c :: d :: text =>
    obtain ⟨rfl, hrest⟩ := List.cons.inj htext
    obtain ⟨rfl, -⟩ := List.cons.inj hrest
    exact hdecimal d text rfl

/-- **A number ends in front of a blank as at the end of the text.** -/
theorem number_separated (h : Separated behind) (text : List Char) :
    number (text ++ behind) = number text := by
  by_cases hhex : ∃ x rest, text = '0' :: x :: rest ∧ isEither 'x' 'X' x = true
  · obtain ⟨x, rest, rfl, hx⟩ := hhex
    simp only [List.cons_append, number, hx, mayFollowHexMark_separated h,
      digitsAndRest_separated h, if_true]
  · have hdecimal : ∀ x rest, text = '0' :: x :: rest → isEither 'x' 'X' x = false :=
      fun x rest htext => by simpa using fun hx => hhex ⟨x, rest, htext, hx⟩
    rw [number_of_decimal hdecimal, number_of_decimal (decimal_separated h hdecimal),
      digitsAndRest_separated h]

theorem numberTail_separated (h : Separated behind) (text : List Char)
    (previous : Option Char) :
    numberTail previous (text ++ behind) = numberTail previous text := by
  induction text generalizing previous with
  | nil =>
    cases behind with
    | nil => rfl
    | cons b behind =>
      have hb : continuesNumber previous b = false :=
        forall_isBlank (p := fun b => continuesNumber previous b = false)
          (by simp [continuesNumber]) (h b rfl)
      simp [numberTail, hb]
  | cons c text ih => simp only [List.cons_append, numberTail, ih]

/-! ## Comments -/

theorem lineRest_break (text behind : List Char) :
    lineRest (text ++ '\n' :: behind) = lineRest text := by
  induction text with
  | nil => rfl
  | cons c text ih =>
    by_cases hc : c = '\n'
    · subst hc
      rfl
    · have hcons : ∀ cs, lineRest (c :: cs) = c :: lineRest cs := fun cs =>
        List.takeWhile_cons_of_pos (by simpa using hc)
      rw [List.cons_append, hcons, hcons, ih]

/-! ## Literals -/

variable {quote : Char}

/-- What ends a literal within the text ends it whatever follows. -/
theorem literalBody_append (behind : List Char)
    (h : (literalBody quote text).ending.seesTextEnd = false) :
    literalBody quote (text ++ behind) = literalBody quote text := by
  fun_induction literalBody quote text with
  | case1 => cases h
  | case2 => cases h
  | case3 c rest ih =>
    have hrest := ih h
    simp only [List.cons_append, literalBody, hrest]
  | case4 rest hlone hescape =>
    rw [List.cons_append, literalBody_cons (ne_backslash hlone hescape), if_pos rfl]
  | case5 c rest hlone hescape hquote hbreak =>
    rw [List.cons_append, literalBody_cons (ne_backslash hlone hescape), if_neg hquote,
      if_pos hbreak]
  | case6 c rest hlone hescape hquote hbreak ih =>
    rw [List.cons_append, literalBody_cons (ne_backslash hlone hescape), if_neg hquote,
      if_neg hbreak, ih h]

/-- A literal that is open at the end of the text is open at a line feed as well. -/
theorem literalBody_break (hquote : quote ≠ '\n') (behind : List Char)
    (h : (literalBody quote text).ending = .textEnd) :
    literalBody quote (text ++ '\n' :: behind) =
      ⟨(literalBody quote text).units, .lineBreak⟩ := by
  fun_induction literalBody quote text with
  | case1 =>
    rw [List.nil_append, literalBody_cons (by decide), if_neg (Ne.symm hquote), if_pos (.inr rfl)]
  | case2 => cases h
  | case3 c rest ih =>
    have hrest := ih h
    simp only [List.cons_append, literalBody, hrest]
    rfl
  | case4 => cases h
  | case5 => cases h
  | case6 c rest hlone hescape hquote hbreak ih =>
    rw [List.cons_append, literalBody_cons (ne_backslash hlone hescape), if_neg hquote,
      if_neg hbreak, ih h]
    rfl

theorem width_of_textEnd (h : (literalBody quote text).ending = .textEnd) :
    (literalBody quote text).width = text.length := by
  have hle := width_le quote text
  have hsees : (literalBody quote text).ending.seesTextEnd = true := by
    rw [h]
    rfl
  have hdrop := literalBody_seesTextEnd hsees
  rw [List.drop_eq_nil_iff] at hdrop
  omega

/-- Without a backslash no escape is cut short. -/
theorem ending_ne_danglingEscape (h : '\\' ∉ text) :
    (literalBody quote text).ending ≠ .danglingEscape := by
  fun_induction literalBody quote text with
  | case1 => exact LiteralEnd.noConfusion
  | case2 => simp at h
  | case3 => simp at h
  | case4 => exact LiteralEnd.noConfusion
  | case5 => exact LiteralEnd.noConfusion
  | case6 c rest _ _ _ _ ih => exact ih fun hmem => h (List.mem_cons_of_mem c hmem)

end CLexer.Lexeme
