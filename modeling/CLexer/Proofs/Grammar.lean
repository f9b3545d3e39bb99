import CLexer.Proofs.Lexeme
import CLexer.Scan.Literal

/-!
# The lexical grammar

The forms that lexemes have, said without the recognisers: which characters stand in a literal, how
an operator goes on, and what a number looks like. The recognisers are then held against the forms,
both ways. What they take has the form, and what has the form they take as a whole:
`literalBody_of_units`, `operatorTail_of_continues`, and for numbers `numeral_of_complete` and
`number_of_numeral`.
-/

set_option autoImplicit false

namespace CLexer.Lexeme

open CLexer.Text

/-! ## Literals -/

/-- May the unit stand between two quotes? -/
def LiteralUnit.Fits (quote : Char) : LiteralUnit → Prop
  | .plain c => c ≠ '\\' ∧ c ≠ quote ∧ c ≠ '\r' ∧ c ≠ '\n'
  | .escape _ => True

/-- The characters of units, one after the other. -/
def unitsText (units : List LiteralUnit) : List Char := units.flatMap LiteralUnit.text

variable {quote : Char}

theorem fits_of_mem_literalBody {text : List Char} :
    ∀ u ∈ (literalBody quote text).units, u.Fits quote := by
  fun_induction literalBody quote text with
  | case1 => simp
  | case2 => simp
  | case3 c rest ih =>
    intro u hu
    rcases List.mem_cons.mp hu with rfl | hu
    · trivial
    · exact ih u hu
  | case4 => simp
  | case5 => simp
  | case6 c rest hlone hescape hquote hbreak ih =>
    intro u hu
    rcases List.mem_cons.mp hu with rfl | hu
    · have hline := not_or.mp hbreak
      exact ⟨ne_backslash hlone hescape, hquote, hline.1, hline.2⟩
    · exact ih u hu

/-- Units that may stand between two quotes are read back, whatever comes behind them. -/
theorem literalBody_append_units {units : List LiteralUnit} (h : ∀ u ∈ units, u.Fits quote)
    (behind : List Char) : literalBody quote (unitsText units ++ behind) =
      ⟨units ++ (literalBody quote behind).units, (literalBody quote behind).ending⟩ := by
  induction units with
  | nil => rfl
  | cons u units ih =>
    have hrest := ih fun v hv => h v (List.mem_cons_of_mem u hv)
    have hu := h u List.mem_cons_self
    rw [unitsText] at hrest ⊢
    rw [List.flatMap_cons, List.append_assoc]
    cases u with
    | plain c =>
      obtain ⟨hescape, hclose, hreturn, hfeed⟩ := hu
      show literalBody quote (c :: (_ ++ behind)) = _
      rw [literalBody_cons hescape, if_neg hclose, if_neg (not_or.mpr ⟨hreturn, hfeed⟩), hrest]
      rfl
    | escape c =>
      show literalBody quote ('\\' :: c :: (_ ++ behind)) = _
      rw [literalBody, hrest]
      rfl

theorem literalBody_of_units (hquote : quote ≠ '\\') {units : List LiteralUnit}
    (h : ∀ u ∈ units, u.Fits quote) (behind : List Char) :
    literalBody quote (unitsText units ++ quote :: behind) = ⟨units, .closed⟩ := by
  rw [literalBody_append_units h, literalBody_cons hquote, if_pos rfl, List.append_nil]

theorem unitsText_eq_nil_iff {units : List LiteralUnit} : unitsText units = [] ↔ units = [] := by
  cases units with
  | nil => simp [unitsText]
  | cons u units => cases u <;> simp [unitsText, LiteralUnit.text]

/-- The length of a character constant tells whether it has more than one unit. -/
theorem isMultichar_iff {units : List LiteralUnit} (h : ∀ u ∈ units, u.Fits apostrophe) :
    Scan.isMultichar (apostrophe :: (unitsText units ++ [apostrophe])) = true ↔
      1 < units.length := by
  unfold Scan.isMultichar
  rw [decide_eq_true_eq]
  cases units with
  | nil => decide
  | cons u units =>
    have hmore : 0 < (unitsText units).length ↔ 0 < units.length := by
      rw [List.length_pos_iff, List.length_pos_iff, ne_eq, ne_eq, unitsText_eq_nil_iff]
    have hu := h u List.mem_cons_self
    have htext : unitsText (u :: units) = u.text ++ unitsText units := rfl
    rw [htext]
    cases u with
    | plain c =>
      have hc : (apostrophe ::
          (LiteralUnit.text (.plain c) ++ unitsText units ++ [apostrophe]))[1]? ≠ some '\\' := by
        simpa [LiteralUnit.text] using hu.1
      rw [if_neg hc]
      simp [LiteralUnit.text]
      omega
    | escape c =>
      simp [LiteralUnit.text]
      omega

/-! ## Operators -/

/-- The characters go on with an operator, each as a listed continuation of all before it. -/
inductive Continues : List Char → List Char → Prop
  | nil (operator : List Char) : Continues operator []
  | cons {operator more : List Char} {c : Char} (hc : continuesOperator operator c = true)
      (hmore : Continues (operator ++ [c]) more) : Continues operator (c :: more)

theorem continues_operatorTail (operator text : List Char) :
    Continues operator (operatorTail operator text) := by
  induction text generalizing operator with
  | nil => exact .nil operator
  | cons c text ih =>
    unfold operatorTail
    split
    · exact .cons (by assumption) (ih _)
    · exact .nil operator

theorem operatorTail_of_continues {operator more : List Char} (h : Continues operator more) :
    operatorTail operator more = more := by
  induction h with
  | nil => rfl
  | cons hc _ ih => rw [operatorTail, if_pos hc, ih]

/-! ## Numbers -/

/-- Digits of a base, or none. -/
def Digits (base : Base) (cs : List Char) : Prop := ∀ c ∈ cs, base.isDigit c = true

/-- A letter in one of its cases, or nothing. -/
def Optional (lower upper : Char) (cs : List Char) : Prop :=
  cs = [] ∨ cs = [lower] ∨ cs = [upper]

/-- An exponent with the `l` that may stand behind it. -/
inductive Exponent : List Char → Prop
  | mk {e : Char} {sign digits l : List Char} (he : isEither 'e' 'E' e = true)
      (hsign : Optional '+' '-' sign) (hdigits : Digits .decimal digits) (hsome : digits ≠ [])
      (hl : Optional 'l' 'L' l) : Exponent (e :: (sign ++ (digits ++ l)))

/-- The forms of numeric constants. -/
inductive Numeral : List Char → Prop
  | hexInteger {x : Char} {digits u l : List Char} (hx : isEither 'x' 'X' x = true)
      (hdigits : Digits .hexadecimal digits) (hsome : digits ≠ []) (hu : Optional 'u' 'U' u)
      (hl : Optional 'l' 'L' l) : Numeral ('0' :: x :: (digits ++ (u ++ l)))
  | hexFraction {x : Char} {whole part l : List Char} (hx : isEither 'x' 'X' x = true)
      (hwhole : Digits .hexadecimal whole) (hpart : Digits .hexadecimal part)
      (hl : Optional 'l' 'L' l) : Numeral ('0' :: x :: (whole ++ '.' :: (part ++ l)))
  | integer {digits u l : List Char} (hdigits : Digits .decimal digits) (hsome : digits ≠ [])
      (hu : Optional 'u' 'U' u) (hl : Optional 'l' 'L' l) : Numeral (digits ++ (u ++ l))
  | fraction {whole part l : List Char} (hwhole : Digits .decimal whole) (hsome : whole ≠ [])
      (hpart : Digits .decimal part) (hl : Optional 'l' 'L' l) :
      Numeral (whole ++ '.' :: (part ++ l))
  | scientific {whole exponent : List Char} (hwhole : Digits .decimal whole) (hsome : whole ≠ [])
      (hexponent : Exponent exponent) : Numeral (whole ++ exponent)
  | fractionScientific {whole part exponent : List Char} (hwhole : Digits .decimal whole)
      (hsome : whole ≠ []) (hpart : Digits .decimal part) (hexponent : Exponent exponent) :
      Numeral (whole ++ '.' :: (part ++ exponent))

/-- A number starts with a decimal digit. -/
theorem Numeral.isDigit_first {text rest : List Char} {c : Char} (h : Numeral text)
    (htext : text = c :: rest) : c.isDigit = true := by
  have hdecimal : ∀ {whole tail : List Char}, Digits .decimal whole → whole ≠ [] →
      whole ++ tail = c :: rest → c.isDigit = true := by
    intro whole tail hwhole hsome heq
    obtain ⟨d, more, rfl⟩ := List.exists_cons_of_ne_nil hsome
    obtain ⟨rfl, -⟩ := List.cons.inj heq
    exact hwhole d List.mem_cons_self
  cases h with
  | hexInteger =>
    obtain ⟨rfl, -⟩ := List.cons.inj htext
    rfl
  | hexFraction =>
    obtain ⟨rfl, -⟩ := List.cons.inj htext
    rfl
  | integer hdigits hsome => exact hdecimal hdigits hsome htext
  | fraction hwhole hsome => exact hdecimal hwhole hsome htext
  | scientific hwhole hsome => exact hdecimal hwhole hsome htext
  | fractionScientific hwhole hsome => exact hdecimal hwhole hsome htext

/-! ### What is read has the form -/

theorem digits_takeWhile (base : Base) (text : List Char) :
    Digits base (text.takeWhile base.isDigit) := fun _ hc => List.mem_takeWhile_imp hc

theorem eq_of_isEither {lower upper c : Char} (h : isEither lower upper c = true) :
    c = lower ∨ c = upper := by
  simpa [isEither] using h

theorem optional_longSuffix (text : List Char) : Optional 'l' 'L' (longSuffix text) := by
  unfold longSuffix
  split
  · split
    · rename_i hl
      rcases eq_of_isEither hl with rfl | rfl
      · exact .inr (.inl rfl)
      · exact .inr (.inr rfl)
    · exact .inl rfl
  · exact .inl rfl

/-- A suffix is a `u` and an `l`, of which either may be missing. -/
theorem exists_suffix_eq (text : List Char) :
    ∃ u l, suffix true text = u ++ l ∧ Optional 'u' 'U' u ∧ Optional 'l' 'L' l := by
  cases text with
  | nil => exact ⟨[], [], rfl, .inl rfl, .inl rfl⟩
  | cons c rest =>
    simp only [suffix, Bool.true_and]
    split
    · rename_i hu
      refine ⟨[c], longSuffix rest, rfl, ?_, optional_longSuffix rest⟩
      rcases eq_of_isEither hu with rfl | rfl
      · exact .inr (.inl rfl)
      · exact .inr (.inr rfl)
    · exact ⟨[], longSuffix (c :: rest), rfl, .inl rfl, optional_longSuffix _⟩

theorem optional_suffix (text : List Char) : Optional 'l' 'L' (suffix false text) := by
  unfold suffix
  split
  · rw [Bool.false_and, if_neg Bool.false_ne_true]
    exact optional_longSuffix _
  · exact .inl rfl

theorem optional_exponentSign (text : List Char) : Optional '+' '-' (exponentSign text) := by
  unfold exponentSign
  split
  · split
    · rename_i hsign
      rcases eq_of_isEither hsign with rfl | rfl
      · exact .inr (.inl rfl)
      · exact .inr (.inr rfl)
    · exact .inl rfl
  · exact .inl rfl

/-- Behind the digits of a number there is a suffix or an exponent. -/
theorem exponentAndSuffix_cases {integer : Bool} {text : List Char}
    (h : (exponentAndSuffix integer text).complete = true) :
    (exponentAndSuffix integer text).lexeme = suffix integer text ∨
      (∃ e ∈ text.head?, isEither 'e' 'E' e = true) ∧
        Exponent (exponentAndSuffix integer text).lexeme := by
  unfold exponentAndSuffix at h ⊢
  split
  · rename_i e rest
    dsimp only at h
    split
    · rename_i he
      rw [if_pos he] at h
      refine .inr ⟨⟨e, rfl, he⟩, ?_⟩
      dsimp only
      split
      · rename_i hnone
        rw [if_pos hnone] at h
        cases h
      · rename_i hsome
        dsimp only
        rw [List.cons_append, List.cons_append, List.append_assoc]
        refine .mk he (optional_exponentSign rest) (digits_takeWhile .decimal _) ?_
          (optional_suffix _)
        simpa using hsome
    · exact .inl rfl
  · exact .inl rfl

/-- The mark of an exponent is a hexadecimal digit, so that no exponent follows such digits. -/
theorem exponentAndSuffix_of_hex {integer : Bool} (text : List Char)
    (h : (exponentAndSuffix integer (text.dropWhile Base.hexadecimal.isDigit)).complete = true) :
    (exponentAndSuffix integer (text.dropWhile Base.hexadecimal.isDigit)).lexeme =
      suffix integer (text.dropWhile Base.hexadecimal.isDigit) := by
  rcases exponentAndSuffix_cases h with hsuffix | ⟨⟨e, hhead, he⟩, -⟩
  · exact hsuffix
  · have hdigit : Base.hexadecimal.isDigit e = true := by
      rcases eq_of_isEither he with rfl | rfl <;> decide
    have hstop := List.head?_dropWhile_not Base.hexadecimal.isDigit text
    rw [hhead] at hstop
    exact absurd (hdigit.symm.trans hstop) (by decide)

theorem numeral_of_hex {x : Char} (hx : isEither 'x' 'X' x = true) {rest : List Char}
    (hfollow : mayFollowHexMark rest = true)
    (h : (digitsAndRest .hexadecimal rest).complete = true) :
    Numeral ('0' :: x :: (digitsAndRest .hexadecimal rest).lexeme) := by
  have hdigits := digits_takeWhile .hexadecimal rest
  unfold digitsAndRest NumberReading.after at h ⊢
  dsimp only at h ⊢
  by_cases hpoint : (rest.dropWhile Base.hexadecimal.isDigit).head? = some '.'
  · obtain ⟨part, hpart⟩ := List.head?_eq_some_iff.mp hpoint
    rw [hpart] at h ⊢
    simp only [fractionAndRest, NumberReading.after] at h ⊢
    rw [exponentAndSuffix_of_hex part h]
    exact .hexFraction hx hdigits (digits_takeWhile _ part) (optional_suffix _)
  · rw [fractionAndRest_of_head_ne hpoint] at h ⊢
    rw [exponentAndSuffix_of_hex rest h]
    obtain ⟨u, l, hsuffix, hu, hl⟩ := exists_suffix_eq (rest.dropWhile Base.hexadecimal.isDigit)
    rw [hsuffix]
    refine .hexInteger hx hdigits (fun hnone => hpoint ?_) hu hl
    -- Without a digit, what may follow the mark is a point.
    cases rest with
    | nil => cases hfollow
    | cons c rest =>
      cases hc : isHexDigit c with
      | true =>
        rw [List.takeWhile_cons_of_pos (p := Base.hexadecimal.isDigit) hc] at hnone
        cases hnone
      | false =>
        have hc' : ¬ Base.hexadecimal.isDigit c = true := by
          show ¬ isHexDigit c = true
          rw [hc]
          exact Bool.false_ne_true
        rw [List.dropWhile_cons_of_neg hc']
        simpa [mayFollowHexMark, hc] using hfollow

/-- A decimal number is its digits, of which there are some, and what is read behind them. -/
theorem exists_digitsAndRest {c : Char} (hc : c.isDigit = true) (rest : List Char) :
    ∃ whole tail, c :: rest = whole ++ tail ∧ Digits .decimal whole ∧ whole ≠ [] ∧
      digitsAndRest .decimal (c :: rest) = (fractionAndRest .decimal tail).after whole := by
  refine ⟨_, _, List.takeWhile_append_dropWhile.symm, digits_takeWhile .decimal (c :: rest), ?_,
    rfl⟩
  rw [List.takeWhile_cons_of_pos (p := Base.decimal.isDigit) hc]
  exact List.cons_ne_nil _ _

theorem numeral_of_decimal {c : Char} (hc : c.isDigit = true) {rest : List Char}
    (h : (digitsAndRest .decimal (c :: rest)).complete = true) :
    Numeral (digitsAndRest .decimal (c :: rest)).lexeme := by
  obtain ⟨whole, tail, -, hdigits, hsome, hread⟩ := exists_digitsAndRest hc rest
  rw [hread, NumberReading.after] at h ⊢
  dsimp only at h ⊢
  by_cases hpoint : tail.head? = some '.'
  · obtain ⟨text, rfl⟩ := List.head?_eq_some_iff.mp hpoint
    simp only [fractionAndRest, NumberReading.after] at h ⊢
    rcases exponentAndSuffix_cases h with hsuffix | ⟨-, hexponent⟩
    · rw [hsuffix]
      exact .fraction hdigits hsome (digits_takeWhile .decimal text) (optional_suffix _)
    · exact .fractionScientific hdigits hsome (digits_takeWhile .decimal text) hexponent
  · rw [fractionAndRest_of_head_ne hpoint] at h ⊢
    rcases exponentAndSuffix_cases h with hsuffix | ⟨-, hexponent⟩
    · obtain ⟨u, l, hparts, hu, hl⟩ := exists_suffix_eq tail
      rw [hsuffix, hparts]
      exact .integer hdigits hsome hu hl
    · exact .scientific hdigits hsome hexponent

/-- **A number that does not break off is a numeral.** -/
theorem numeral_of_complete {c : Char} (hc : c.isDigit = true) {rest : List Char}
    (h : (number (c :: rest)).complete = true) : Numeral (number (c :: rest)).lexeme := by
  rcases number_cases (c :: rest) with ⟨x, more, htext, hx⟩ | hdecimal
  · rw [htext] at h ⊢
    simp only [number, hx, if_true] at h ⊢
    cases hfollow : mayFollowHexMark more with
    | true =>
      rw [hfollow] at h
      exact numeral_of_hex hx hfollow h
    | false =>
      rw [hfollow] at h
      cases h
  · rw [hdecimal] at h ⊢
    exact numeral_of_decimal hc h

/-! ### What has the form is read as a whole -/

/-- Digits are read up to what is no digit. -/
theorem takeWhile_of_digits {base : Base} {digits tail : List Char} (h : Digits base digits)
    (htail : ∀ c ∈ tail.head?, base.isDigit c = false) :
    (digits ++ tail).takeWhile base.isDigit = digits ∧
      (digits ++ tail).dropWhile base.isDigit = tail := by
  rw [takeWhile_append_stop htail, dropWhile_append_stop htail]
  exact ⟨List.takeWhile_eq_self_iff.mpr h, by simp [List.dropWhile_eq_nil_iff.mpr h]⟩

variable {u l sign digits whole part tail : List Char}

theorem suffix_of_long (hl : Optional 'l' 'L' l) : suffix false l = l := by
  rcases hl with rfl | rfl | rfl <;> rfl

theorem exponentAndSuffix_of_long (hl : Optional 'l' 'L' l) :
    exponentAndSuffix false l = ⟨l, true⟩ := by
  rcases hl with rfl | rfl | rfl <;> rfl

/-- What a number can end with is no digit. -/
theorem not_isDigit_of_long (base : Base) (hl : Optional 'l' 'L' l) :
    ∀ c ∈ l.head?, base.isDigit c = false := by
  cases base <;> rcases hl with rfl | rfl | rfl <;> simp <;> decide

theorem not_isDigit_of_optional (base : Base) (hu : Optional 'u' 'U' u)
    (hl : Optional 'l' 'L' l) : ∀ c ∈ (u ++ l).head?, base.isDigit c = false := by
  rcases hu with rfl | rfl | rfl
  · exact not_isDigit_of_long base hl
  · cases base <;> simp <;> decide
  · cases base <;> simp <;> decide

theorem exponentSign_of_optional (hsign : Optional '+' '-' sign) (hdigits : Digits .decimal digits)
    (hsome : digits ≠ []) (tail : List Char) :
    exponentSign (sign ++ (digits ++ tail)) = sign := by
  rcases hsign with rfl | rfl | rfl
  · obtain ⟨d, more, rfl⟩ := List.exists_cons_of_ne_nil hsome
    have hdigit : d.isDigit = true := hdigits d List.mem_cons_self
    have hd : isEither '+' '-' d = false := by
      cases h : isEither '+' '-' d with
      | false => rfl
      | true => rcases eq_of_isEither h with rfl | rfl <;> exact absurd hdigit (by decide)
    show (if isEither '+' '-' d then [d] else []) = []
    rw [hd, if_neg Bool.false_ne_true]
  · rfl
  · rfl

theorem exponentAndSuffix_of_exponent {exponent : List Char} (h : Exponent exponent)
    (integer : Bool) : exponentAndSuffix integer exponent = ⟨exponent, true⟩ := by
  obtain ⟨he, hsign, hdigits, hsome, hl⟩ := h
  rename_i e sign digits l
  obtain ⟨htake, hdrop⟩ := takeWhile_of_digits hdigits (not_isDigit_of_long .decimal hl)
  have htake' : (digits ++ l).takeWhile Char.isDigit = digits := htake
  have hdrop' : (digits ++ l).dropWhile Char.isDigit = l := hdrop
  have hempty : digits.isEmpty = false := by simpa using hsome
  simp only [exponentAndSuffix, he, if_true, exponentSign_of_optional hsign hdigits hsome,
    List.drop_left, htake', hdrop', hempty, suffix_of_long hl]
  simp

theorem not_isDigit_of_exponent {exponent : List Char} (h : Exponent exponent) :
    ∀ c ∈ exponent.head?, c.isDigit = false := by
  obtain ⟨he, -, -, -, -⟩ := h
  intro c hc
  cases hc
  rcases eq_of_isEither he with rfl | rfl <;> decide

/-- The part behind a point is read up to where its digits end. -/
theorem fractionAndRest_of_part {base : Base} (hpart : Digits base part)
    (htail : ∀ c ∈ tail.head?, base.isDigit c = false)
    (h : exponentAndSuffix false tail = ⟨tail, true⟩) :
    fractionAndRest base ('.' :: (part ++ tail)) = ⟨'.' :: (part ++ tail), true⟩ := by
  obtain ⟨htake, hdrop⟩ := takeWhile_of_digits hpart htail
  simp only [fractionAndRest, NumberReading.after, htake, hdrop, h, List.cons_append]

theorem digitsAndRest_of_digits {base : Base} (hwhole : Digits base whole)
    (htail : ∀ c ∈ tail.head?, base.isDigit c = false)
    (h : fractionAndRest base tail = ⟨tail, true⟩) :
    digitsAndRest base (whole ++ tail) = ⟨whole ++ tail, true⟩ := by
  obtain ⟨htake, hdrop⟩ := takeWhile_of_digits hwhole htail
  simp only [digitsAndRest, NumberReading.after, htake, hdrop, h]

/-- Decimal digits with anything but the mark of a hexadecimal number behind them are decimal. -/
theorem number_of_digits (hwhole : Digits .decimal whole) (hsome : whole ≠ [])
    (htail : ∀ c ∈ tail.head?, isEither 'x' 'X' c = false) :
    number (whole ++ tail) = digitsAndRest .decimal (whole ++ tail) := by
  refine number_of_decimal fun x rest htext => ?_
  obtain ⟨c, more, rfl⟩ := List.exists_cons_of_ne_nil hsome
  cases more with
  | nil =>
    have hx : tail.head? = some x := congrArg List.head? (List.cons.inj htext).2
    exact htail x hx
  | cons d more =>
    have hd : d = x := (List.cons.inj (List.cons.inj htext).2).1
    have hdigit : x.isDigit = true := hd ▸ hwhole d (by simp)
    by_contra h
    rcases eq_of_isEither (by simpa using h) with rfl | rfl <;> exact absurd hdigit (by decide)

/-- What may follow the mark of a hexadecimal number is told by its first character. -/
theorem mayFollowHexMark_of_digits (hdigits : Digits .hexadecimal digits)
    (h : digits ≠ [] ∨ tail.head? = some '.') : mayFollowHexMark (digits ++ tail) = true := by
  cases digits with
  | cons d more =>
    have hd : isHexDigit d = true := hdigits d List.mem_cons_self
    simp [mayFollowHexMark, hd]
  | nil =>
    obtain ⟨rest, rfl⟩ := List.head?_eq_some_iff.mp (h.resolve_left fun hnone => hnone rfl)
    rfl

theorem number_of_hex {x : Char} (hx : isEither 'x' 'X' x = true)
    (hdigits : Digits .hexadecimal digits) (hfollow : digits ≠ [] ∨ tail.head? = some '.')
    (htail : ∀ c ∈ tail.head?, isHexDigit c = false)
    (h : fractionAndRest .hexadecimal tail = ⟨tail, true⟩) :
    number ('0' :: x :: (digits ++ tail)) = ⟨'0' :: x :: (digits ++ tail), true⟩ := by
  simp only [number, hx, if_true, mayFollowHexMark_of_digits hdigits hfollow,
    digitsAndRest_of_digits hdigits htail h, NumberReading.after, List.cons_append, List.nil_append]

theorem number_of_decimal_digits (hwhole : Digits .decimal whole) (hsome : whole ≠ [])
    (hmark : ∀ c ∈ tail.head?, isEither 'x' 'X' c = false)
    (htail : ∀ c ∈ tail.head?, c.isDigit = false)
    (h : fractionAndRest .decimal tail = ⟨tail, true⟩) :
    number (whole ++ tail) = ⟨whole ++ tail, true⟩ := by
  rw [number_of_digits hwhole hsome hmark, digitsAndRest_of_digits hwhole htail h]

theorem fractionAndRest_of_optional (base : Base) (hu : Optional 'u' 'U' u)
    (hl : Optional 'l' 'L' l) : fractionAndRest base (u ++ l) = ⟨u ++ l, true⟩ := by
  rcases hu with rfl | rfl | rfl <;> rcases hl with rfl | rfl | rfl <;> rfl

/-- **A numeral is read as a whole, and does not break off.** -/
theorem number_of_numeral {text : List Char} (h : Numeral text) : number text = ⟨text, true⟩ := by
  cases h with
  | hexInteger hx hdigits hsome hu hl =>
    exact number_of_hex hx hdigits (.inl hsome) (not_isDigit_of_optional .hexadecimal hu hl)
      (fractionAndRest_of_optional .hexadecimal hu hl)
  | hexFraction hx hwhole hpart hl =>
    refine number_of_hex hx hwhole (.inr rfl) (fun c hc => ?_)
      (fractionAndRest_of_part hpart (not_isDigit_of_long .hexadecimal hl)
        (exponentAndSuffix_of_long hl))
    cases hc
    decide
  | integer hdigits hsome hu hl =>
    refine number_of_decimal_digits hdigits hsome ?_ (not_isDigit_of_optional .decimal hu hl)
      (fractionAndRest_of_optional .decimal hu hl)
    rcases hu with rfl | rfl | rfl <;> rcases hl with rfl | rfl | rfl <;> simp <;> decide
  | fraction hwhole hsome hpart hl =>
    refine number_of_decimal_digits hwhole hsome ?_ ?_
      (fractionAndRest_of_part hpart (not_isDigit_of_long .decimal hl)
        (exponentAndSuffix_of_long hl))
    · exact fun c hc => by cases hc; decide
    · exact fun c hc => by cases hc; decide
  | scientific hwhole hsome hexponent =>
    have hread := exponentAndSuffix_of_exponent hexponent true
    obtain ⟨he, -, -, -, -⟩ := id hexponent
    refine number_of_decimal_digits hwhole hsome ?_ (not_isDigit_of_exponent hexponent) ?_
    · intro c hc
      cases hc
      rcases eq_of_isEither he with rfl | rfl <;> decide
    · rw [fractionAndRest_of_head_ne, hread]
      intro hc
      cases hc
      cases he
  | fractionScientific hwhole hsome hpart hexponent =>
    refine number_of_decimal_digits hwhole hsome ?_ ?_
      (fractionAndRest_of_part hpart (not_isDigit_of_exponent hexponent)
        (exponentAndSuffix_of_exponent hexponent false))
    · exact fun c hc => by cases hc; decide
    · exact fun c hc => by cases hc; decide

end CLexer.Lexeme
