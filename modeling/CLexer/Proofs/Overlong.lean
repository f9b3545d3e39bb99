import CLexer.Proofs.Scan.Literal
import CLexer.Proofs.Skipping

/-!
# What a limit on the length of lexemes changes

A lexeme that finds no room is reported and dropped, and the scan should go on where it would go on
if there were room.

A literal keeps to that (`literal_resumes_under_limit`). It is stored by one loop and, from the
character on that finds no room, skipped by another. The second begins behind a whole unit of the
inside, so that it stops where the first one would have stopped; and it does not begin at all where
only the closing quote finds no room, because all of the literal is read by then.

A number does not always (`overlong_number_resumes_iff`). What fits is read, and one character more;
then everything is skipped that looks like the rest of a number. A sign looks like that only behind
the mark of an exponent, and the skipping knows of no character that was read before it began. So it
stops at once in front of a sign whose mark was the character that found no room, and from the sign on
the number is left to be scanned. That is the one place where a number may not be cut
(`SplitsExponent`): anywhere else all that is left of it is skipped.
-/

set_option autoImplicit false

namespace CLexer

open CLexer.Text CLexer.Lexeme Event

/-- The options without the limit on the length of a lexeme. -/
def Options.unlimited (o : Options) : Options :=
  { o with lexemeLimit := none, wordLimit_le := fun _ h => by cases h }

/-- `free` is where `limited` is, and knows no limit. How much room there is makes no difference. -/
structure Context.Lifts (limited free : Context) : Prop where
  cursor : free.cursor = limited.cursor
  start : free.start = limited.start
  tables : free.tables = limited.tables
  options : free.options = limited.options.unlimited

theorem Context.Lifts.unread {limited free : Context} (h : limited.Lifts free) :
    free.unread = limited.unread := congrArg Cursor.ahead h.cursor

/-! ## Literals -/

namespace Piece

variable {o : Options} {limit n : Nat} {quote : Char} {rest : List Char}

theorem fits_iff_le (h : o.lexemeLimit = some limit) : fits o n = true ↔ n ≤ limit := by
  unfold fits
  rw [h]
  exact decide_eq_true_iff

theorem tooLong_eq (h : o.lexemeLimit = some limit) :
    tooLong o = ⟨.error, Problem.overflowMessage limit⟩ := by
  unfold tooLong
  rw [h]
  rfl

/-- A literal that fits is the piece that it is without a limit. -/
theorem literal_of_fits (h : fits o (storedLength (literalBody quote rest)) = true) :
    literal o quote rest (closed o quote) =
      literal o.unlimited quote rest (closed o.unlimited quote) := by
  unfold literal
  dsimp only
  rw [if_pos h, if_pos (Scan.fits_of_unlimited rfl _)]
  rfl

theorem literal_of_not_fits (h : ¬ fits o (storedLength (literalBody quote rest)) = true)
    (closed : List Char → List Cut × List Remark) :
    literal o quote rest closed =
      { more := rest.take (literalBody quote rest).width, remarks := [tooLong o] } := by
  unfold literal
  dsimp only
  rw [if_neg h]

end Piece

namespace Scan

variable {limited free : Context} {quote : Char} {limit : Nat}

/-- **A limit never changes where the scan goes on behind a literal.** The opening quote was just
read. If all that is stored without a limit is within the limit, nothing else changes either; if it is
not, there is no token and that is the one thing reported. -/
theorem literal_resumes_under_limit (hlimited : limited.Fresh) (hfree : free.Fresh)
    (hlifts : limited.Lifts free) (hlimit : limited.options.lexemeLimit = some limit)
    (hquote : quote = apostrophe ∨ quote = doubleQuote) :
    (literal quote limited).context.cursor = (literal quote free).context.cursor ∧
      (∃ value, (literal quote free).result = .ok value) ∧
      ((literal quote free).context.held.length ≤ limit →
        (literal quote limited).result = (literal quote free).result ∧
          reports (literal quote limited).events = reports (literal quote free).events) ∧
      (limit < (literal quote free).context.held.length →
        (literal quote limited).result = .ok none ∧
          reports (literal quote limited).events =
            [⟨.error, limited.start,
              "lexeme exceeds maximum length of " ++ toString limit ++ " characters"⟩]) := by
  have hroom : free.options.lexemeLimit = none := by rw [hlifts.options]; rfl
  obtain ⟨value, hvalue, hends⟩ := Ends.literal_of_fits hquote hfree.toBounded hfree.held
    (fits_of_unlimited hroom _)
  obtain ⟨value', held', hends', hvalue'⟩ :=
    makes_quotation hquote hlimited.toBounded hlimited.held
  have hlength : (literal quote free).context.held.length =
      Piece.storedLength (literalBody quote limited.unread) := by
    rw [hends.held_eq, List.length_cons, ← storedLength_eq, hlifts.unread]
  rw [hlifts.unread, hlifts.options, hlifts.start] at hvalue hends
  rw [hlength]
  have hplain := ne_backslash_of_quote hquote
  refine ⟨?_, ⟨value, hends.result_eq⟩, fun hfits => ?_, fun hlong => ?_⟩
  · rw [context_literal hquote, context_literal hquote,
      cursor_quoted hplain (Ends.put_opening hlimited.toBounded hlimited.held quote).result_eq,
      cursor_quoted hplain (Ends.put_opening hfree.toBounded hfree.held quote).result_eq,
      hlifts.unread, hlifts.cursor]
  · rw [← Piece.literal_of_fits ((Piece.fits_iff_le hlimit).mpr hfits)] at hvalue hends
    obtain rfl : value' = value := by
      simpa using congrArg List.head? (hvalue'.trans hvalue.symm)
    rw [hends.result_eq, hends'.result_eq, hends.reports_eq, hends'.reports_eq]
    exact ⟨rfl, rfl⟩
  · rw [Piece.literal_of_not_fits (mt (Piece.fits_iff_le hlimit).mp (Nat.not_le.mpr hlong)),
      Piece.tooLong_eq hlimit] at hvalue' hends'
    obtain rfl : value' = none := Option.toList_eq_nil_iff.mp hvalue'
    exact ⟨hends'.result_eq, hends'.reports_eq⟩

/-- The scan goes on behind the closing quote of a string of which four characters fit. -/
theorem literal_resumes_under_limit_of_string :
    let reached := fun options : Options =>
      (begin (next (Context.ofText "\"abcd\";".toList .standard options)).context).context
    let limited := reached { wordLimit := 2, lexemeLimit := some 4 }
    let free := reached { wordLimit := 2 }
    (limited.Fresh ∧ free.Fresh ∧ limited.Lifts free ∧ limited.options.lexemeLimit = some 4 ∧
        4 < (literal doubleQuote free).context.held.length) ∧
      (literal doubleQuote limited).context.cursor = (literal doubleQuote free).context.cursor ∧
      (literal doubleQuote limited).result = .ok none ∧
      reports (literal doubleQuote limited).events =
        [⟨.error, ⟨1, 1⟩, "lexeme exceeds maximum length of " ++ toString 4 ++ " characters"⟩] := by
  intro reached limited free
  have hlimited : limited.Fresh := Context.fresh_ofText _ _ _ _
  have hfree : free.Fresh := Context.fresh_ofText _ _ _ _
  have hlifts : limited.Lifts free := ⟨rfl, rfl, rfl, rfl⟩
  have hlong : 4 < (literal doubleQuote free).context.held.length := by
    rw [held_literal (.inr rfl) hfree.toBounded hfree.held (fits_of_unlimited rfl _)]
    decide
  obtain ⟨hcursor, -, -, hoverlong⟩ :=
    literal_resumes_under_limit hlimited hfree hlifts rfl (.inr rfl)
  exact ⟨⟨hlimited, hfree, hlifts, rfl, hlong⟩, hcursor, hoverlong hlong⟩

end Scan

/-! ## Numbers -/

namespace Piece

variable {limit : Nat} {d x : Char} {more left : List Char}

theorem drop_of_drop_cons (h : (d :: more).drop limit = x :: left) : more.drop limit = left := by
  rw [← List.drop_succ_cons (a := d), ← List.drop_drop, h]
  rfl

/-- Where no exponent is split, all of an overlong number is skipped. -/
theorem isPrefix_overlong (hskipped : Skipped (d :: more)) (hlimit : limit ≤ more.length)
    (h : ¬ SplitsExponent limit (d :: more)) (behind : List Char) :
    more <+: overlong limit (more ++ behind) := by
  obtain ⟨x, left, hleft⟩ : ∃ x left, (d :: more).drop limit = x :: left :=
    List.exists_cons_of_length_pos (by simp; omega)
  have hmore : more.drop limit = left := drop_of_drop_cons hleft
  have htail : numberTail (some x) left = left := by
    have hwhole := hskipped none
    rw [← List.take_append_drop limit (d :: more), hleft] at hwhole
    exact numberTail_of_append hwhole
  have hsign : isEither 'e' 'E' x = true →
      ∀ sign ∈ left.head?, ¬ isEither '+' '-' sign = true := by
    intro hmark sign hhead hsign
    obtain ⟨rest, rfl⟩ := List.head?_eq_some_iff.mp hhead
    exact h ⟨x, sign, rest, hleft, hmark, hsign⟩
  have hall := (List.prefix_append_right_inj (more.take limit)).mpr
    (isPrefix_numberTail_none htail hsign behind)
  rw [← hmore, List.take_append_drop] at hall
  unfold overlong
  rw [List.take_append_of_le_length hlimit, List.drop_append_of_le_length hlimit]
  exact hall

/-- Where one is, nothing is skipped behind its mark, and a sign comes next. -/
theorem overlong_of_splits (h : SplitsExponent limit (d :: more)) (behind : List Char) :
    overlong limit (more ++ behind) = more.take limit ∧ limit < more.length ∧
      glanced ((more ++ behind).drop limit) = [] := by
  obtain ⟨e, sign, rest, hdrop, -, hsign⟩ := h
  have hmore : more.drop limit = sign :: rest := drop_of_drop_cons hdrop
  have hlt : limit < more.length := by
    have := congrArg List.length hmore
    simp only [List.length_drop, List.length_cons] at this
    omega
  unfold overlong
  rw [List.take_append_of_le_length hlt.le, List.drop_append_of_le_length hlt.le, hmore,
    List.cons_append, numberTail_none_of_sign hsign, List.append_nil]
  refine ⟨rfl, hlt, ?_⟩
  rcases eq_of_isEither hsign with rfl | rfl <;> rfl

theorem length_glanced_le (text : List Char) : (glanced text).length ≤ 1 := by
  unfold glanced
  split <;> simp

/-- An overlong number is read at least as far as without a limit, unless its exponent is split. -/
theorem length_le_overlong_iff (hskipped : Skipped (d :: more)) (hlimit : limit ≤ more.length)
    (behind : List Char) :
    let text := more ++ behind
    let skipped := overlong limit text
    (more ++ glanced (text.drop more.length)).length ≤
        (skipped ++ glanced (text.drop skipped.length)).length ↔
      ¬ SplitsExponent limit (d :: more) := by
  intro text skipped
  constructor
  · intro hle hsplits
    obtain ⟨hoverlong, hlt, hglanced⟩ := overlong_of_splits hsplits behind
    have hlength : skipped.length = limit := by
      rw [show skipped = more.take limit from hoverlong, List.length_take_of_le hlt.le]
    rw [hlength, show glanced (text.drop limit) = [] from hglanced, List.append_nil, hlength,
      List.length_append] at hle
    omega
  · intro hsplits
    have hreach : more.length ≤ skipped.length :=
      (isPrefix_overlong hskipped hlimit hsplits behind).length_le
    rcases hreach.eq_or_lt with heq | hlt
    · simp only [List.length_append, heq, Nat.le_refl]
    · -- What a look takes is one character at most, and that is skipped too.
      have hglanced := length_glanced_le (text.drop more.length)
      simp only [List.length_append]
      omega

theorem number_of_not_fits {o : Options} {text : List Char}
    (hlexeme : (Lexeme.number (d :: text)).lexeme = d :: more)
    (h : ¬ fits o (more.length + 1) = true) :
    number o d text =
      { more := overlong (o.lexemeLimit.getD 0) text ++
          glanced (text.drop (overlong (o.lexemeLimit.getD 0) text).length)
        remarks := [tooLong o] } := by
  unfold number
  dsimp only
  rw [hlexeme, List.length_cons, if_neg h]

/-- The two things that can be said of a number are told apart by their first letters. -/
theorem unknownToken_ne_overflowMessage (text : String) (limit : Nat) :
    "unknown token: " ++ text ≠ Problem.overflowMessage limit := by
  intro h
  have hunknown : "unknown token: ".toList = 'u' :: "nknown token: ".toList := by decide
  have hlexeme : "lexeme exceeds maximum length of ".toList =
      'l' :: "exeme exceeds maximum length of ".toList := by decide
  have hchars := congrArg String.toList h
  unfold Problem.overflowMessage at hchars
  rw [String.toList_append, String.toList_append, String.toList_append, hunknown, hlexeme] at hchars
  exact absurd (List.cons.inj hchars).1 (by decide)

/-- A number that fits is read to its end, and it is not said that it is too long. -/
theorem number_of_fits {o : Options} {text : List Char}
    (hlexeme : (Lexeme.number (d :: text)).lexeme = d :: more)
    (h : fits o (more.length + 1) = true) :
    (number o d text).more = more ++ glanced (text.drop more.length) ∧
      ∀ r ∈ (number o d text).remarks, ∀ limit : Nat, r.message ≠ Problem.overflowMessage limit := by
  unfold number
  dsimp only
  rw [hlexeme, List.length_cons, if_pos h, List.tail_cons]
  split
  · exact ⟨rfl, by simp⟩
  · refine ⟨rfl, fun r hr limit hmessage => ?_⟩
    obtain rfl := List.mem_singleton.mp hr
    exact unknownToken_ne_overflowMessage _ limit hmessage

end Piece

namespace Scan

variable {limited free : Context} {limit : Nat} {d : Char}

/-- What is left behind a longer start of a text is at the end of what is left behind a shorter one. -/
theorem suffix_iff_length_le {text front left front' left' : List Char}
    (h : text = front ++ left) (h' : text = front' ++ left') :
    left <:+ left' ↔ front'.length ≤ front.length := by
  have hlength : front.length + left.length = front'.length + left'.length := by
    rw [← List.length_append, ← List.length_append, ← h, ← h']
  constructor
  · intro hsuffix
    have := hsuffix.length_le
    omega
  · intro hle
    exact List.suffix_of_suffix_length_le ⟨front, h.symm⟩ ⟨front', h'.symm⟩ (by omega)

/-- **Where the scan goes on behind an overlong number.** The first digit was just read. A number
that is reported as too long makes no token, and nothing else is reported. The scan goes on where it
would go on without a limit, or behind that, exactly if the limit does not split an exponent. -/
theorem overlong_number_resumes_iff (hlimited : limited.Fresh) (hfree : free.Fresh)
    (hlifts : limited.Lifts free) (hlimit : limited.options.lexemeLimit = some limit)
    (hd : d.isDigit = true)
    (hlong : ∃ r ∈ reports (number d limited).events, r.message =
      "lexeme exceeds maximum length of " ++ toString limit ++ " characters") :
    (number d limited).result = .ok none ∧
      reports (number d limited).events =
        [⟨.error, limited.start,
          "lexeme exceeds maximum length of " ++ toString limit ++ " characters"⟩] ∧
      ((number d limited).context.unread <:+ (number d free).context.unread ↔
        ¬ SplitsExponent limit (Lexeme.number (d :: limited.unread)).lexeme) := by
  obtain ⟨more, hlexeme, behind, hbehind⟩ := number_eq_cons hd limited.unread
  obtain ⟨value, held, hends, hvalue⟩ := makes_number hlimited.toBounded hlimited.held hd
  obtain ⟨value', held', hends', -⟩ := makes_number hfree.toBounded hfree.held hd
  rw [hlifts.unread, hlifts.options, (Piece.number_of_fits hlexeme (fits_of_unlimited rfl _)).1]
    at hends'
  have hfits : ¬ Piece.fits limited.options (more.length + 1) = true := by
    intro hfits
    obtain ⟨r, hr, hmessage⟩ := hlong
    rw [hends.reports_eq] at hr
    obtain ⟨remark, hremark, rfl⟩ := List.mem_map.mp hr
    exact (Piece.number_of_fits hlexeme hfits).2 remark hremark limit hmessage
  have hle : limit ≤ more.length := by
    have := mt (Piece.fits_iff_le hlimit).mpr hfits
    omega
  rw [Piece.number_of_not_fits hlexeme hfits, Piece.tooLong_eq hlimit, hlimit] at hends hvalue
  obtain rfl : value = none := Option.toList_eq_nil_iff.mp hvalue
  refine ⟨hends.result_eq, hends.reports_eq, ?_⟩
  have hskipped := skipped_number (d :: limited.unread)
  rw [hlexeme] at hskipped ⊢
  have hreach := Piece.length_le_overlong_iff hskipped hle behind
  rw [hbehind] at hreach
  have hsplit := hends'.unread_split
  rw [hlifts.unread] at hsplit
  exact (suffix_iff_length_le hends.unread_split hsplit).trans hreach

/-- A number cut in front of the mark of its exponent is skipped to its end. -/
theorem overlong_number_resumes_of_fraction :
    let reached := fun options : Options =>
      (begin (next (Context.ofText "1.5e+10;".toList .standard options)).context).context
    let limited := reached { wordLimit := 2, lexemeLimit := some 2 }
    let free := reached { wordLimit := 2 }
    ((limited.Fresh ∧ free.Fresh ∧ limited.Lifts free ∧
        limited.options.lexemeLimit = some 2) ∧
      ∃ r ∈ reports (number '1' limited).events, r.message =
        "lexeme exceeds maximum length of " ++ toString 2 ++ " characters") ∧
      (number '1' limited).result = .ok none ∧
      (number '1' limited).context.unread <:+ (number '1' free).context.unread := by
  intro reached limited free
  have hlimited : limited.Fresh := Context.fresh_ofText _ _ _ _
  have hfree : free.Fresh := Context.fresh_ofText _ _ _ _
  have hlifts : limited.Lifts free := ⟨rfl, rfl, rfl, rfl⟩
  have hlong : ∃ r ∈ reports (number '1' limited).events, r.message =
      "lexeme exceeds maximum length of " ++ toString 2 ++ " characters" := by decide
  have hwhole : ¬ SplitsExponent 2 (Lexeme.number ('1' :: limited.unread)).lexeme := by
    rintro ⟨e, sign, rest, hdrop, he, -⟩
    obtain ⟨rfl, -⟩ := List.cons.inj hdrop
    exact absurd he (by decide)
  obtain ⟨hresult, -, hreach⟩ := overlong_number_resumes_iff hlimited hfree hlifts rfl rfl hlong
  exact ⟨⟨⟨hlimited, hfree, hlifts, rfl⟩, hlong⟩, hresult, hreach.mpr hwhole⟩

/-- A number cut at the mark of its exponent leaves the sign and the digits to be scanned. -/
theorem overlong_number_leaves_exponent :
    let reached := fun options : Options =>
      (begin (next (Context.ofText "1e+10;".toList .standard options)).context).context
    let limited := reached { wordLimit := 1, lexemeLimit := some 1 }
    let free := reached { wordLimit := 1 }
    ((limited.Fresh ∧ free.Fresh ∧ limited.Lifts free ∧
        limited.options.lexemeLimit = some 1) ∧
      ∃ r ∈ reports (number '1' limited).events, r.message =
        "lexeme exceeds maximum length of " ++ toString 1 ++ " characters") ∧
      (number '1' limited).context.unread = "+10;".toList ∧
      (number '1' free).context.unread = ";".toList ∧
      ¬ (number '1' limited).context.unread <:+ (number '1' free).context.unread := by
  intro reached limited free
  exact ⟨⟨⟨Context.fresh_ofText _ _ _ _, Context.fresh_ofText _ _ _ _, ⟨rfl, rfl, rfl, rfl⟩, rfl⟩,
    by decide⟩, by decide, by decide, by decide⟩

end Scan

end CLexer
