import CLexer.Proofs.Grammar
import CLexer.Proofs.Scan.Number

/-!
# Numbers are longest matches

A number is recognised greedily. Each part is taken as far as it goes and is never given back, even
where an exponent is begun that has no digits. Said without the recogniser: either the text breaks
off, behind the mark of a hexadecimal number or inside an exponent (`BreaksOff`), or the lexeme is
the longest start of the text that is a numeral.

That nothing longer is a numeral follows from one fact about the recogniser: more text behind what
it is given makes its lexeme longer or leaves it alone, but never takes anything back (`Grows`). A
numeral is read as a whole when it stands alone, so it is part of what is read in front of anything.
-/

set_option autoImplicit false

namespace CLexer.Lexeme

open CLexer.Text

/-- The longest start of a text that has a property. -/
structure LongestPrefix (P : List Char → Prop) (text lexeme : List Char) : Prop where
  isPrefix : lexeme <+: text
  holds : P lexeme
  longest : ∀ other, other <+: text → P other → other.length ≤ lexeme.length

theorem LongestPrefix.unique {P : List Char → Prop} {text lexeme other : List Char}
    (h : LongestPrefix P text lexeme) (h' : LongestPrefix P text other) : other = lexeme := by
  have hlength := Nat.le_antisymm (h.longest other h'.isPrefix h'.holds)
    (h'.longest lexeme h.isPrefix h.holds)
  exact (List.prefix_of_prefix_length_le h'.isPrefix h.isPrefix hlength.le).eq_of_length hlength

/-- The text starts with an exponent that has no digits: its mark, and a sign if there is one. -/
inductive BareExponent : List Char → List Char → Prop
  | mk {e : Char} {sign rest : List Char} (he : isEither 'e' 'E' e = true)
      (hsign : Optional '+' '-' sign)
      (hnone : sign = [] → ∀ c ∈ rest.head?, isEither '+' '-' c = false)
      (hrest : ∀ c ∈ rest.head?, c.isDigit = false) : BareExponent (e :: (sign ++ rest)) (e :: sign)

/-- The text starts with a number that breaks off, and this is how far it goes. -/
inductive BreaksOff : List Char → List Char → Prop
  | mark {x : Char} {rest : List Char} (hx : isEither 'x' 'X' x = true)
      (hrest : ∀ c ∈ rest.head?, isHexDigit c = false ∧ c ≠ '.') :
      BreaksOff ('0' :: x :: rest) ['0', x]
  | scientific {whole tail bare : List Char} (hwhole : Digits .decimal whole) (hsome : whole ≠ [])
      (htail : BareExponent tail bare) : BreaksOff (whole ++ tail) (whole ++ bare)
  | fractionScientific {whole part tail bare : List Char} (hwhole : Digits .decimal whole)
      (hsome : whole ≠ []) (hpart : Digits .decimal part) (htail : BareExponent tail bare) :
      BreaksOff (whole ++ '.' :: (part ++ tail)) (whole ++ '.' :: (part ++ bare))

/-! ## More text takes nothing back -/

/-- With more text behind it, the recogniser takes what it took before, or more. -/
def Grows (f : List Char → List Char) : Prop := ∀ text behind, f text <+: f (text ++ behind)

theorem Grows.takeWhile {f : List Char → List Char} (hf : Grows f) (hnil : f [] = [])
    (p : Char → Bool) : Grows fun text => text.takeWhile p ++ f (text.dropWhile p) := by
  intro text behind
  induction text with
  | nil => simp [hnil]
  | cons c rest ih =>
    cases hc : p c with
    | true => simpa [hc] using ih
    | false => simpa [hc] using hf (c :: rest) behind

theorem grows_longSuffix : Grows longSuffix := by
  intro text behind
  cases text with
  | nil => exact List.nil_prefix
  | cons c rest => exact List.prefix_rfl

theorem grows_suffix (integer : Bool) : Grows (suffix integer) := by
  intro text behind
  cases text with
  | nil => exact List.nil_prefix
  | cons c rest =>
    simp only [suffix, List.cons_append]
    split
    · exact List.cons_prefix_cons.mpr ⟨rfl, grows_longSuffix rest behind⟩
    · exact grows_longSuffix (c :: rest) behind

/-- The digits of an exponent with the suffix behind them, or nothing if there are none. -/
def exponentTail (text : List Char) : List Char :=
  if (text.takeWhile Char.isDigit).isEmpty then []
  else text.takeWhile Char.isDigit ++ suffix false (text.dropWhile Char.isDigit)

theorem lexeme_of_exponent {e : Char} (he : isEither 'e' 'E' e = true) (integer : Bool)
    (rest : List Char) :
    (exponentAndSuffix integer (e :: rest)).lexeme =
      e :: (exponentSign rest ++ exponentTail (rest.drop (exponentSign rest).length)) := by
  simp only [exponentAndSuffix, he, if_true, exponentTail]
  split <;> simp

theorem grows_exponentTail : Grows exponentTail := by
  intro text behind
  cases text with
  | nil => exact List.nil_prefix
  | cons c rest =>
    cases hc : c.isDigit with
    | true =>
      have hgrows := (grows_suffix false).takeWhile rfl Char.isDigit rest behind
      simpa [exponentTail, hc] using hgrows
    | false => simp [exponentTail, hc]

theorem grows_exponentAndSuffix (integer : Bool) :
    Grows fun text => (exponentAndSuffix integer text).lexeme := by
  intro text behind
  cases text with
  | nil => exact List.nil_prefix
  | cons e rest =>
    cases he : isEither 'e' 'E' e with
    | false => simpa [exponentAndSuffix, he] using grows_suffix integer (e :: rest) behind
    | true =>
      simp only [List.cons_append, lexeme_of_exponent he]
      refine List.cons_prefix_cons.mpr ⟨rfl, ?_⟩
      cases rest with
      | nil => exact List.nil_prefix
      | cons c rest =>
        -- The sign is seen already, and what is behind it stays behind it.
        have hsign : exponentSign (c :: rest ++ behind) = exponentSign (c :: rest) := rfl
        have hle := (exponentSign_isPrefix (c :: rest)).length_le
        rw [hsign, List.drop_append_of_le_length hle]
        exact (List.prefix_append_right_inj _).mpr (grows_exponentTail _ behind)

theorem grows_fractionAndRest (base : Base) :
    Grows fun text => (fractionAndRest base text).lexeme := by
  intro text behind
  cases text with
  | nil => exact List.nil_prefix
  | cons c rest =>
    by_cases hc : c = '.'
    · subst hc
      exact List.cons_prefix_cons.mpr
        ⟨rfl, (grows_exponentAndSuffix false).takeWhile rfl base.isDigit rest behind⟩
    · have hhead : (c :: rest).head? ≠ some '.' ∧ (c :: rest ++ behind).head? ≠ some '.' := by
        simp [hc]
      simp only [fractionAndRest_of_head_ne hhead.1, fractionAndRest_of_head_ne hhead.2]
      exact grows_exponentAndSuffix true (c :: rest) behind

theorem grows_digitsAndRest (base : Base) : Grows fun text => (digitsAndRest base text).lexeme :=
  (grows_fractionAndRest base).takeWhile rfl base.isDigit

theorem number_of_unmarked {c : Char} {rest : List Char}
    (h : c = '0' → ∀ x ∈ rest.head?, isEither 'x' 'X' x = false) :
    number (c :: rest) = digitsAndRest .decimal (c :: rest) := by
  refine number_of_decimal fun x more htext => ?_
  obtain ⟨rfl, rfl⟩ := List.cons.inj htext
  exact h rfl x rfl

theorem grows_marked {x : Char} (hx : isEither 'x' 'X' x = true) (rest behind : List Char) :
    (number ('0' :: x :: rest)).lexeme <+: (number ('0' :: x :: (rest ++ behind))).lexeme := by
  simp only [number, hx, if_true]
  cases rest with
  | nil =>
    rw [if_neg (by decide : ¬ mayFollowHexMark [] = true)]
    split
    · exact List.prefix_append ['0', x] _
    · exact List.prefix_rfl
  | cons c rest =>
    have hfollow : mayFollowHexMark (c :: rest ++ behind) = mayFollowHexMark (c :: rest) := rfl
    rw [hfollow]
    split
    · exact (List.prefix_append_right_inj ['0', x]).mpr (grows_digitsAndRest _ (c :: rest) behind)
    · exact List.prefix_rfl

theorem grows_number : Grows fun text => (number text).lexeme := by
  intro text behind
  cases text with
  | nil => exact List.nil_prefix
  | cons c rest =>
    by_cases hzero : c = '0'
    · subst hzero
      cases rest with
      | nil =>
        -- A lone zero may become the start of a mark.
        obtain ⟨more, hmore, -⟩ := number_eq_cons (c := '0') rfl behind
        simp only [List.cons_append, List.nil_append, hmore]
        exact List.cons_prefix_cons.mpr ⟨rfl, List.nil_prefix⟩
      | cons x rest =>
        cases hx : isEither 'x' 'X' x with
        | true => exact grows_marked hx rest behind
        | false =>
          have hunmarked : ∀ tail,
              number ('0' :: x :: tail) = digitsAndRest .decimal ('0' :: x :: tail) :=
            fun tail => number_of_unmarked fun _ y hy => by cases hy; exact hx
          simp only [List.cons_append, hunmarked]
          exact grows_digitsAndRest .decimal ('0' :: x :: rest) behind
    · have hunmarked : ∀ tail, number (c :: tail) = digitsAndRest .decimal (c :: tail) :=
        fun tail => number_of_unmarked fun h => absurd h hzero
      simp only [List.cons_append, hunmarked]
      exact grows_digitsAndRest .decimal (c :: rest) behind

/-- **A number that does not break off is the longest numeral that its text starts with.** -/
theorem longestPrefix_number {c : Char} (hc : c.isDigit = true) {rest : List Char}
    (h : (number (c :: rest)).complete = true) :
    LongestPrefix Numeral (c :: rest) (number (c :: rest)).lexeme where
  isPrefix := number_isPrefix _
  holds := numeral_of_complete hc h
  longest := by
    rintro other ⟨behind, htext⟩ hother
    have hgrows := grows_number other behind
    simp only [number_of_numeral hother, htext] at hgrows
    exact hgrows.length_le

/-! ## Where a number breaks off -/

theorem BareExponent.head_eq {tail bare : List Char} (h : BareExponent tail bare) :
    tail.head? = some 'e' ∨ tail.head? = some 'E' := by
  obtain ⟨he, -, -, -⟩ := h
  rcases eq_of_isEither he with rfl | rfl
  · exact .inl rfl
  · exact .inr rfl

theorem exponentAndSuffix_of_bare {tail bare : List Char} (h : BareExponent tail bare)
    (integer : Bool) : exponentAndSuffix integer tail = ⟨bare, false⟩ := by
  obtain ⟨he, hsign, hnone, hrest⟩ := h
  rename_i e sign rest
  have hread : exponentSign (sign ++ rest) = sign := by
    rcases hsign with rfl | rfl | rfl
    · cases rest with
      | nil => rfl
      | cons c rest =>
        have hc := hnone rfl c rfl
        simp only [isEither] at hc
        simp [exponentSign, hc]
    · rfl
    · rfl
  have hdigits : rest.takeWhile Char.isDigit = [] := by
    have hnil : Digits .decimal [] := by simp [Digits]
    exact (takeWhile_of_digits hnil hrest).1
  simp [exponentAndSuffix, he, hread, hdigits]

theorem exponentSign_eq_nil {rest : List Char} (h : exponentSign rest = []) :
    ∀ c ∈ rest.head?, isEither '+' '-' c = false := by
  intro c hc
  obtain ⟨more, rfl⟩ := List.head?_eq_some_iff.mp hc
  simpa [exponentSign, isEither] using h

theorem bareExponent_of_broken {integer : Bool} {tail : List Char}
    (h : (exponentAndSuffix integer tail).complete = false) :
    BareExponent tail (exponentAndSuffix integer tail).lexeme := by
  cases tail with
  | nil => cases h
  | cons e rest =>
    cases he : isEither 'e' 'E' e with
    | false => simp [exponentAndSuffix, he] at h
    | true =>
      have hrest := List.prefix_iff_eq_append.mp (exponentSign_isPrefix rest)
      rw [lexeme_of_exponent he]
      simp only [exponentAndSuffix, he, if_true] at h
      generalize rest.drop (exponentSign rest).length = unsigned at h hrest ⊢
      have hdigits : unsigned.takeWhile Char.isDigit = [] := by
        by_contra hsome
        rw [if_neg (by simpa using hsome)] at h
        cases h
      have hbare :
          BareExponent (e :: (exponentSign rest ++ unsigned)) (e :: exponentSign rest) := by
        refine .mk he (optional_exponentSign rest) (fun hnone => ?_) (fun c hc => ?_)
        · have hnosign := exponentSign_eq_nil hnone
          rwa [← hrest, hnone] at hnosign
        · obtain ⟨more, rfl⟩ := List.head?_eq_some_iff.mp hc
          simpa using hdigits
      rw [hrest] at hbare
      simpa [exponentTail, hdigits] using hbare

/-- The mark of an exponent is a hexadecimal digit, so that none breaks off behind such digits. -/
theorem complete_of_hex (integer : Bool) (text : List Char) :
    (exponentAndSuffix integer (text.dropWhile Base.hexadecimal.isDigit)).complete = true := by
  by_contra hbroken
  have hbare := bareExponent_of_broken (by simpa using hbroken)
  have hstop := List.head?_dropWhile_not Base.hexadecimal.isDigit text
  rcases hbare.head_eq with hhead | hhead <;> rw [hhead] at hstop <;> exact absurd hstop (by decide)

theorem complete_of_hexDigits (text : List Char) :
    (digitsAndRest .hexadecimal text).complete = true := by
  unfold digitsAndRest NumberReading.after
  dsimp only
  by_cases hpoint : (text.dropWhile Base.hexadecimal.isDigit).head? = some '.'
  · obtain ⟨part, hpart⟩ := List.head?_eq_some_iff.mp hpoint
    rw [hpart]
    exact complete_of_hex false part
  · rw [fractionAndRest_of_head_ne hpoint]
    exact complete_of_hex true text

theorem mayFollowHexMark_eq_false_iff {rest : List Char} :
    mayFollowHexMark rest = false ↔ ∀ c ∈ rest.head?, isHexDigit c = false ∧ c ≠ '.' := by
  cases rest <;> simp [mayFollowHexMark]

/-- **A number that breaks off is read as far as it goes.** -/
theorem number_of_breaksOff {text lexeme : List Char} (h : BreaksOff text lexeme) :
    number text = ⟨lexeme, false⟩ := by
  have hmark : ∀ {tail bare : List Char}, BareExponent tail bare → ∀ c ∈ tail.head?,
      c.isDigit = false ∧ isEither 'x' 'X' c = false ∧ c ≠ '.' := by
    intro tail bare htail c hc
    rcases htail.head_eq with hhead | hhead <;> rw [hhead] at hc <;> cases hc <;> decide
  cases h with
  | mark hx hrest => simp [number, hx, mayFollowHexMark_eq_false_iff.mpr hrest]
  | scientific hwhole hsome htail =>
    rename_i whole tail bare
    have hpoint : tail.head? ≠ some '.' := fun hc => (hmark htail '.' hc).2.2 rfl
    obtain ⟨htake, hdrop⟩ := takeWhile_of_digits hwhole fun c hc => (hmark htail c hc).1
    rw [number_of_digits hwhole hsome fun c hc => (hmark htail c hc).2.1]
    simp only [digitsAndRest, NumberReading.after, htake, hdrop, fractionAndRest_of_head_ne hpoint,
      exponentAndSuffix_of_bare htail]
  | fractionScientific hwhole hsome hpart htail =>
    rename_i whole part tail bare
    have hpoint : ∀ c ∈ ('.' :: (part ++ tail)).head?,
        Base.decimal.isDigit c = false ∧ isEither 'x' 'X' c = false := by
      intro c hc
      cases hc
      decide
    obtain ⟨htake, hdrop⟩ := takeWhile_of_digits hwhole fun c hc => (hpoint c hc).1
    obtain ⟨htake', hdrop'⟩ := takeWhile_of_digits hpart fun c hc => (hmark htail c hc).1
    rw [number_of_digits hwhole hsome fun c hc => (hpoint c hc).2]
    simp only [digitsAndRest, NumberReading.after, htake, hdrop, fractionAndRest, htake', hdrop',
      exponentAndSuffix_of_bare htail, List.cons_append]

theorem not_breaksOff {text : List Char} (h : (number text).complete = true) :
    ¬ ∃ lexeme, BreaksOff text lexeme := by
  rintro ⟨lexeme, hbroken⟩
  rw [number_of_breaksOff hbroken] at h
  cases h

theorem breaksOff_of_decimal {c : Char} (hc : c.isDigit = true) {rest : List Char}
    (h : (digitsAndRest .decimal (c :: rest)).complete = false) :
    BreaksOff (c :: rest) (digitsAndRest .decimal (c :: rest)).lexeme := by
  obtain ⟨whole, tail, htext, hdigits, hsome, hread⟩ := exists_digitsAndRest hc rest
  rw [hread, NumberReading.after] at h ⊢
  rw [htext]
  dsimp only at h ⊢
  by_cases hpoint : tail.head? = some '.'
  · obtain ⟨text, rfl⟩ := List.head?_eq_some_iff.mp hpoint
    simp only [fractionAndRest, NumberReading.after] at h ⊢
    have hbroken := BreaksOff.fractionScientific hdigits hsome (digits_takeWhile .decimal text)
      (bareExponent_of_broken h)
    rwa [List.takeWhile_append_dropWhile] at hbroken
  · rw [fractionAndRest_of_head_ne hpoint] at h ⊢
    exact .scientific hdigits hsome (bareExponent_of_broken h)

theorem breaksOff_of_broken {c : Char} (hc : c.isDigit = true) {rest : List Char}
    (h : (number (c :: rest)).complete = false) :
    BreaksOff (c :: rest) (number (c :: rest)).lexeme := by
  rcases number_cases (c :: rest) with ⟨x, more, htext, hx⟩ | hdecimal
  · rw [htext] at h ⊢
    simp only [number, hx, if_true] at h ⊢
    cases hfollow : mayFollowHexMark more with
    | true =>
      rw [hfollow] at h
      exact absurd ((complete_of_hexDigits more).symm.trans h) (by decide)
    | false => exact .mark hx (mayFollowHexMark_eq_false_iff.mp hfollow)
  · rw [hdecimal] at h ⊢
    exact breaksOff_of_decimal hc h

end CLexer.Lexeme

namespace CLexer.Scan

open CLexer.Lexeme

/-- **A number is scanned as the longest numeral that the text starts with.** A digit has been read,
the buffer is empty and has no limit. A number that breaks off makes no token and is reported as far
as it goes. Otherwise there is a token, its text is the longest numeral, and nothing is reported.
What is read is that start of the text, and a line feed if one stands right behind it. -/
theorem number_is_longest_numeral {ctx : Context} {d : Char} (hheld : ctx.held = [])
    (hlimit : ctx.buffer.limit = none) (hd : d.isDigit = true) :
    let text := d :: ctx.unread
    (∀ lexeme, BreaksOff text lexeme →
      Ends (number d) ctx none (lexeme.tail ++ Piece.glanced (text.drop lexeme.length)) lexeme
        [⟨.fatal, ctx.start, "unknown token: " ++ String.ofList lexeme⟩]) ∧
      ((¬ ∃ lexeme, BreaksOff text lexeme) →
        ∃ t : Token, t.kind = .numericConstant ∧ t.position = ctx.start ∧
          LongestPrefix Numeral text t.text.toList ∧
          Ends (number d) ctx (some t)
            (t.text.toList.tail ++ Piece.glanced (text.drop t.text.toList.length)) t.text.toList
            []) := by
  intro text
  obtain ⟨more, hlexeme, hmore⟩ := number_eq_cons hd ctx.unread
  have hfill := Ends.fill_unlimited hlimit (d :: more)
  rw [hheld, List.nil_append] at hfill
  constructor
  · intro lexeme hbroken
    have hread := number_of_breaksOff hbroken
    obtain rfl : lexeme = d :: more := by
      rw [hread] at hlexeme
      exact hlexeme
    apply Ends.number_of_fill hlexeme hmore hfill
    intro ctx' hstart hheld'
    rw [hread, ← hstart]
    exact .finishNumber_broken hheld'
  · intro hwhole
    have hcomplete : (Lexeme.number text).complete = true := by
      by_contra hbroken
      exact hwhole ⟨_, breaksOff_of_broken hd (by simpa using hbroken)⟩
    have hlongest := longestPrefix_number hd hcomplete
    rw [hlexeme] at hlongest
    refine ⟨(⟨.numericConstant, d, more⟩ : Cut).token ctx.start, rfl, rfl, ?_, ?_⟩
    · simpa [Cut.token, Cut.chars] using hlongest
    · simp only [Cut.token, Cut.chars, String.toList_ofList]
      apply Ends.number_of_fill hlexeme hmore hfill
      intro ctx' hstart hheld'
      rw [hcomplete, ← hstart]
      exact .finishNumber_complete hheld'

/-- An exponent that breaks off behind its sign, and a hexadecimal fraction with one suffix. -/
theorem number_is_longest_numeral_of_suffixes :
    let reached := fun text : String =>
      (begin (next (Context.ofText text.toList .standard {})).context).context
    let bare := reached "1e+;"
    let hex := reached "0x1.8Lu"
    ((bare.held = [] ∧ bare.buffer.limit = none) ∧
        Ends (number '1') bare none ['e', '+'] ['1', 'e', '+']
          [⟨.fatal, ⟨1, 1⟩, "unknown token: 1e+"⟩]) ∧
      ∃ t : Token, t.kind = .numericConstant ∧ t.position = ⟨1, 1⟩ ∧
        LongestPrefix Numeral "0x1.8Lu".toList t.text.toList ∧
        Ends (number '0') hex (some t)
          (t.text.toList.tail ++ Piece.glanced ("0x1.8Lu".toList.drop t.text.toList.length))
          t.text.toList [] := by
  intro reached bare hex
  have hbare : BreaksOff ('1' :: "e+;".toList) "1e+".toList := breaksOff_of_broken rfl rfl
  have hhex : ¬ ∃ lexeme, BreaksOff "0x1.8Lu".toList lexeme := not_breaksOff rfl
  have hbareEmpty : bare.held = [] := rfl
  have hhexEmpty : hex.held = [] := rfl
  exact ⟨⟨⟨hbareEmpty, rfl⟩, (number_is_longest_numeral hbareEmpty rfl (d := '1') rfl).1 _ hbare⟩,
    (number_is_longest_numeral hhexEmpty rfl (d := '0') rfl).2 hhex⟩

/-- A line feed behind a number is read with it, although no numeral holds one. -/
theorem number_takes_line_feed :
    let ctx := (begin (next (Context.ofText "1\n".toList .standard {})).context).context
    let text := '1' :: ctx.unread
    (ctx.held = [] ∧ ctx.buffer.limit = none ∧ ¬ ∃ lexeme, BreaksOff text lexeme) ∧
      LongestPrefix Numeral text ['1'] ∧ text ≠ ['1'] ++ (number '1' ctx).context.unread := by
  intro ctx text
  have hwhole : ¬ ∃ lexeme, BreaksOff text lexeme := not_breaksOff rfl
  have hlongest : LongestPrefix Numeral text (Lexeme.number text).lexeme :=
    longestPrefix_number rfl rfl
  exact ⟨⟨rfl, rfl, hwhole⟩, hlongest, by decide⟩

end CLexer.Scan
