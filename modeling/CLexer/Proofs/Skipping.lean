import CLexer.Proofs.LongestMatch

/-!
# Skipping the rest of a number

A number that is too long is not read to its end. What is left of it is skipped, and for that there
is a simpler rule than the form of numbers: letters, digits and points go on with a number, and so
does a sign right behind the mark of an exponent.

The rule takes in all that the form does (`skipped_number`), so that a number which is skipped from
its start is skipped as a whole. It need not begin at the start, if it is told which character stands
in front (`numberTail_of_append`). If it is not told, it may stop in front of a sign, and that is the
only difference it makes (`isPrefix_numberTail_none`).
-/

set_option autoImplicit false

namespace CLexer.Lexeme

open CLexer.Text

variable {previous : Option Char} {c x : Char} {text left front : List Char}

/-! ## Skipping from the start -/

/-- The characters that are skipped with a number wherever they stand. -/
def isPlain (c : Char) : Bool := c.isAlphanum || c == '.'

theorem continuesNumber_of_plain (hc : isPlain c = true) (previous : Option Char) :
    continuesNumber previous c = true := by
  unfold continuesNumber
  rw [show (c.isAlphanum || c == '.') = true from hc, Bool.true_or]

/-- Anything else is only skipped as the sign of an exponent. -/
theorem continuesNumber_iff :
    continuesNumber (some x) c = true ↔
      isPlain c = true ∨ isEither '+' '-' c = true ∧ isEither 'e' 'E' x = true := by
  simp [continuesNumber, isPlain, isEither]

theorem continuesNumber_none : continuesNumber none c = isPlain c := by
  simp [continuesNumber, isPlain]

theorem not_isPlain_of_sign (hc : isEither '+' '-' c = true) : isPlain c = false := by
  rcases eq_of_isEither hc with rfl | rfl <;> decide

theorem numberTail_cons (h : continuesNumber previous c = true) (text : List Char) :
    numberTail previous (c :: text) = c :: numberTail (some c) text := by
  rw [numberTail, if_pos h]

/-- The characters are skipped with a number to the last, whatever stands in front of them. -/
def Skipped (cs : List Char) : Prop := ∀ previous, numberTail previous cs = cs

theorem skipped_nil : Skipped [] := fun _ => rfl

theorem Skipped.append (h : Skipped text) (hfront : ∀ c ∈ front, isPlain c = true) :
    Skipped (front ++ text) := by
  induction front with
  | nil => exact h
  | cons c front ih =>
    intro previous
    have hc := hfront c List.mem_cons_self
    rw [List.cons_append, numberTail_cons (continuesNumber_of_plain hc previous),
      ih (fun d hd => hfront d (List.mem_cons_of_mem c hd)) (some c)]

theorem skipped_of_plain (h : ∀ c ∈ text, isPlain c = true) : Skipped text := by
  simpa using skipped_nil.append h

theorem isAlphanum_of_isHexDigit (h : isHexDigit c = true) : c.isAlphanum = true := by
  simp only [isHexDigit, Bool.or_eq_true, Bool.and_eq_true, decide_eq_true_eq] at h
  show ((c.isUpper || c.isLower) || c.isDigit) = true
  obtain (hdigit | ⟨ha, hf⟩) | ⟨ha, hf⟩ := h
  · rw [hdigit, Bool.or_true]
  · have hz : c ≤ 'z' := Char.le_trans hf (by decide : 'f' ≤ 'z')
    have hlower : c.isLower = true := Bool.and_eq_true_iff.mpr ⟨decide_eq_true ha, decide_eq_true hz⟩
    rw [hlower, Bool.or_true, Bool.true_or]
  · have hz : c ≤ 'Z' := Char.le_trans hf (by decide : 'F' ≤ 'Z')
    have hupper : c.isUpper = true := decide_eq_true ⟨ha, hz⟩
    rw [hupper, Bool.true_or, Bool.true_or]

theorem isPlain_of_digits {base : Base} {digits : List Char} (h : Digits base digits) :
    ∀ c ∈ digits, isPlain c = true := by
  intro c hc
  have hdigit := h c hc
  cases base with
  | decimal => simp [isPlain, Char.isAlphanum, show c.isDigit = true from hdigit]
  | hexadecimal => simp [isPlain, isAlphanum_of_isHexDigit hdigit]

theorem isPlain_of_optional {lower upper : Char} (hlower : isPlain lower = true)
    (hupper : isPlain upper = true) {cs : List Char} (h : Optional lower upper cs) :
    ∀ c ∈ cs, isPlain c = true := by
  rcases h with rfl | rfl | rfl <;> simp [hlower, hupper]

theorem isPlain_of_suffix (integer : Bool) (text : List Char) :
    ∀ c ∈ suffix integer text, isPlain c = true := by
  cases integer with
  | false => exact isPlain_of_optional (by decide) (by decide) (optional_suffix text)
  | true =>
    obtain ⟨u, l, hsuffix, hu, hl⟩ := exists_suffix_eq text
    rw [hsuffix]
    intro c hc
    rcases List.mem_append.mp hc with hc | hc
    · exact isPlain_of_optional (by decide) (by decide) hu c hc
    · exact isPlain_of_optional (by decide) (by decide) hl c hc

theorem skipped_exponentTail (text : List Char) : Skipped (exponentTail text) := by
  unfold exponentTail
  split
  · exact skipped_nil
  · exact (skipped_of_plain (isPlain_of_suffix false _)).append
      (isPlain_of_digits (digits_takeWhile .decimal text))

/-- The sign of an exponent is skipped because its mark is. -/
theorem skipped_exponentAndSuffix (integer : Bool) (text : List Char) :
    Skipped (exponentAndSuffix integer text).lexeme := by
  cases text with
  | nil => exact skipped_nil
  | cons e rest =>
    cases he : isEither 'e' 'E' e with
    | false =>
      simp only [exponentAndSuffix, he, Bool.false_eq_true, if_false]
      exact skipped_of_plain (isPlain_of_suffix integer (e :: rest))
    | true =>
      have hmark : isPlain e = true := by rcases eq_of_isEither he with rfl | rfl <;> decide
      have htail := skipped_exponentTail (rest.drop (exponentSign rest).length)
      rw [lexeme_of_exponent he]
      intro previous
      rw [numberTail_cons (continuesNumber_of_plain hmark previous)]
      rcases optional_exponentSign rest with hsign | hsign | hsign <;> rw [hsign] at htail ⊢
      · exact congrArg (e :: ·) (htail (some e))
      · rw [List.singleton_append, numberTail_cons (continuesNumber_iff.mpr (.inr ⟨rfl, he⟩)),
          htail (some '+')]
      · rw [List.singleton_append, numberTail_cons (continuesNumber_iff.mpr (.inr ⟨rfl, he⟩)),
          htail (some '-')]

theorem skipped_digitsAndRest (base : Base) (text : List Char) :
    Skipped (digitsAndRest base text).lexeme := by
  refine Skipped.append ?_ (isPlain_of_digits (digits_takeWhile base text))
  unfold fractionAndRest
  split
  · rename_i part _
    have hpart := (skipped_exponentAndSuffix false (part.dropWhile base.isDigit)).append
      (isPlain_of_digits (digits_takeWhile base part))
    have hpoint : isPlain '.' = true := by decide
    exact hpart.append (List.forall_mem_singleton.mpr hpoint)
  · exact skipped_exponentAndSuffix true _

/-- **What is read as a number would be skipped as one.** -/
theorem skipped_number (text : List Char) : Skipped (number text).lexeme := by
  rcases number_cases text with ⟨x, rest, rfl, hx⟩ | hdecimal
  · have hzero : isPlain '0' = true := by decide
    have hplain : isPlain x = true := by rcases eq_of_isEither hx with rfl | rfl <;> decide
    have hmark : ∀ c ∈ ['0', x], isPlain c = true :=
      List.forall_mem_cons.mpr ⟨hzero, List.forall_mem_singleton.mpr hplain⟩
    simp only [number, hx, if_true]
    split
    · exact (skipped_digitsAndRest .hexadecimal rest).append hmark
    · exact skipped_of_plain hmark
  · rw [hdecimal]
    exact skipped_digitsAndRest .decimal text

/-! ## Skipping from the middle -/

/-- Skipping may begin anywhere, if it knows the character before. -/
theorem numberTail_of_append (h : numberTail previous (front ++ x :: left) = front ++ x :: left) :
    numberTail (some x) left = left := by
  induction front generalizing previous with
  | nil =>
    rw [List.nil_append, numberTail] at h
    split at h
    · exact (List.cons.inj h).2
    · cases h
  | cons c front ih =>
    rw [List.cons_append, numberTail] at h
    split at h
    · exact ih (List.cons.inj h).2
    · cases h

theorem isPrefix_numberTail_append (h : numberTail previous text = text) (behind : List Char) :
    text <+: numberTail previous (text ++ behind) := by
  induction text generalizing previous with
  | nil => exact List.nil_prefix
  | cons c text ih =>
    rw [numberTail] at h
    split at h
    · rename_i hc
      rw [List.cons_append, numberTail_cons hc]
      exact List.cons_prefix_cons.mpr ⟨rfl, ih (List.cons.inj h).2⟩
    · cases h

/-- Without the character before, skipping can only stop short of the sign of an exponent. -/
theorem isPrefix_numberTail_none (h : numberTail (some x) left = left)
    (hsign : isEither 'e' 'E' x = true → ∀ sign ∈ left.head?, ¬ isEither '+' '-' sign = true)
    (behind : List Char) : left <+: numberTail none (left ++ behind) := by
  cases left with
  | nil => exact List.nil_prefix
  | cons c rest =>
    rw [numberTail] at h
    split at h
    · rename_i hc
      have hrest := isPrefix_numberTail_append (List.cons.inj h).2 behind
      rcases continuesNumber_iff.mp hc with hplain | ⟨hc, hmark⟩
      · rw [List.cons_append, numberTail_cons (continuesNumber_of_plain hplain none)]
        exact List.cons_prefix_cons.mpr ⟨rfl, hrest⟩
      · exact absurd hc (hsign hmark c rfl)
    · cases h

theorem numberTail_none_of_sign {sign : Char} (h : isEither '+' '-' sign = true)
    (rest : List Char) : numberTail none (sign :: rest) = [] := by
  rw [numberTail, continuesNumber_none, not_isPlain_of_sign h, if_neg Bool.false_ne_true]

/-- The limit falls on the mark of an exponent, and a sign stands behind that. -/
def SplitsExponent (limit : Nat) (lexeme : List Char) : Prop :=
  ∃ e sign rest, lexeme.drop limit = e :: sign :: rest ∧ isEither 'e' 'E' e = true ∧
    isEither '+' '-' sign = true

end CLexer.Lexeme
