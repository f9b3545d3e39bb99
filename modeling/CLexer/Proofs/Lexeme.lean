import CLexer.Lexeme.Comment
import CLexer.Lexeme.Number
import CLexer.Lexeme.Operator
import CLexer.Lexeme.Word
import CLexer.Proofs.Extent
import Mathlib.Data.List.TakeWhile

/-!
# Recognisers take starts of texts

A recogniser says which characters at the front of a text belong to a lexeme. The scanner uses the
length of what it is told and reads that many characters, so that nothing in it makes the characters
read the characters told of. This file does: whatever a recogniser gives is a start of the text.

For words and comments that is a fact about `takeWhile`. A number is put together from parts that are
each recognised in what the part before left over, and the lemmas follow it part by part.
-/

set_option autoImplicit false

namespace CLexer.Lexeme

open CLexer.Text

theorem take_of_isPrefix {start text : List Char} (h : start <+: text) :
    text.take start.length = start := (List.prefix_iff_eq_take.mp h).symm

theorem append_prefix_of_drop {start text more : List Char} (h : start <+: text)
    (hm : more <+: text.drop start.length) : start ++ more <+: text := by
  obtain ⟨behind, rfl⟩ := h
  rw [List.drop_left] at hm
  exact (List.prefix_append_right_inj start).mpr hm

theorem takeWhile_append_isPrefix {p : Char → Bool} {text more : List Char}
    (h : more <+: text.dropWhile p) : text.takeWhile p ++ more <+: text := by
  have happend := (List.prefix_append_right_inj (text.takeWhile p)).mpr h
  rwa [List.takeWhile_append_dropWhile] at happend

/-- A run of characters goes no further than a text behind it lets it. -/
theorem takeWhile_append_stop {p : Char → Bool} {behind : List Char}
    (h : ∀ c ∈ behind.head?, p c = false) (text : List Char) :
    (text ++ behind).takeWhile p = text.takeWhile p := by
  induction text with
  | nil =>
    cases behind with
    | nil => rfl
    | cons b behind => exact List.takeWhile_cons_of_neg (by simp [h b rfl])
  | cons c text ih =>
    by_cases hc : p c = true
    · rw [List.cons_append, List.takeWhile_cons_of_pos hc, List.takeWhile_cons_of_pos hc, ih]
    · rw [List.cons_append, List.takeWhile_cons_of_neg hc, List.takeWhile_cons_of_neg hc]

theorem dropWhile_append_stop {p : Char → Bool} {behind : List Char}
    (h : ∀ c ∈ behind.head?, p c = false) (text : List Char) :
    (text ++ behind).dropWhile p = text.dropWhile p ++ behind := by
  have hall := List.takeWhile_append_dropWhile (p := p) (l := text ++ behind)
  rw [takeWhile_append_stop h] at hall
  have htext : text.takeWhile p ++ (text.dropWhile p ++ behind) = text ++ behind := by
    rw [← List.append_assoc, List.takeWhile_append_dropWhile]
  exact List.append_cancel_left (hall.trans htext.symm)

/-! ## Words and operators -/

theorem word_isPrefix (text : List Char) : word text <+: text := List.takeWhile_prefix _

theorem letters_isPrefix (text : List Char) : letters text <+: text := List.takeWhile_prefix _

theorem operatorTail_isPrefix (operator text : List Char) : operatorTail operator text <+: text := by
  induction text generalizing operator with
  | nil => exact List.nil_prefix
  | cons c rest ih =>
    unfold operatorTail
    split
    · exact List.cons_prefix_cons.mpr ⟨rfl, ih _⟩
    · exact List.nil_prefix

/-! ## Numbers -/

theorem numberTail_isPrefix (previous : Option Char) (text : List Char) :
    numberTail previous text <+: text := by
  induction text generalizing previous with
  | nil => exact List.nil_prefix
  | cons c rest ih =>
    unfold numberTail
    split
    · exact List.cons_prefix_cons.mpr ⟨rfl, ih _⟩
    · exact List.nil_prefix

/-- Without a point in front there is no fraction. -/
theorem fractionAndRest_of_head_ne {text : List Char} (h : text.head? ≠ some '.') (base : Base) :
    fractionAndRest base text = exponentAndSuffix true text := by
  unfold fractionAndRest
  split
  · exact absurd rfl h
  · rfl

/-- Without the mark of a hexadecimal number in front, a number is a decimal one. -/
theorem number_of_decimal {text : List Char}
    (h : ∀ x rest, text = '0' :: x :: rest → isEither 'x' 'X' x = false) :
    number text = digitsAndRest .decimal text := by
  unfold number
  split
  · rename_i x rest
    rw [h x rest rfl]
    rfl
  · rfl

/-- A number has the mark of a hexadecimal number, or is read as a decimal one. -/
theorem number_cases (text : List Char) :
    (∃ x rest, text = '0' :: x :: rest ∧ isEither 'x' 'X' x = true) ∨
      number text = digitsAndRest .decimal text := by
  by_cases hmark : ∃ x rest, text = '0' :: x :: rest ∧ isEither 'x' 'X' x = true
  · exact .inl hmark
  · refine .inr (number_of_decimal fun x rest htext => ?_)
    simpa using fun hx => hmark ⟨x, rest, htext, hx⟩

theorem longSuffix_isPrefix (text : List Char) : longSuffix text <+: text := by
  unfold longSuffix
  split
  · split
    · exact List.cons_prefix_cons.mpr ⟨rfl, List.nil_prefix⟩
    · exact List.nil_prefix
  · exact List.nil_prefix

theorem suffix_isPrefix (integer : Bool) (text : List Char) : suffix integer text <+: text := by
  unfold suffix
  split
  · split
    · exact List.cons_prefix_cons.mpr ⟨rfl, longSuffix_isPrefix _⟩
    · exact longSuffix_isPrefix _
  · exact List.nil_prefix

theorem exponentSign_isPrefix (text : List Char) : exponentSign text <+: text := by
  unfold exponentSign
  split
  · split
    · exact List.cons_prefix_cons.mpr ⟨rfl, List.nil_prefix⟩
    · exact List.nil_prefix
  · exact List.nil_prefix

theorem exponentAndSuffix_isPrefix (integer : Bool) (text : List Char) :
    (exponentAndSuffix integer text).lexeme <+: text := by
  unfold exponentAndSuffix
  split
  · rename_i e rest
    split
    · dsimp only
      split
      · exact List.cons_prefix_cons.mpr ⟨rfl, exponentSign_isPrefix rest⟩
      · -- Behind the sign come the digits, and behind them the suffix.
        rw [List.cons_append, List.cons_append, List.append_assoc]
        refine List.cons_prefix_cons.mpr ⟨rfl, ?_⟩
        refine append_prefix_of_drop (exponentSign_isPrefix rest) ?_
        exact takeWhile_append_isPrefix (suffix_isPrefix _ _)
    · exact suffix_isPrefix integer (e :: rest)
  · exact List.nil_prefix

theorem fractionAndRest_isPrefix (base : Base) (text : List Char) :
    (fractionAndRest base text).lexeme <+: text := by
  unfold fractionAndRest
  split
  · refine List.cons_prefix_cons.mpr ⟨rfl, ?_⟩
    exact takeWhile_append_isPrefix (exponentAndSuffix_isPrefix _ _)
  · exact exponentAndSuffix_isPrefix _ _

theorem digitsAndRest_isPrefix (base : Base) (text : List Char) :
    (digitsAndRest base text).lexeme <+: text :=
  takeWhile_append_isPrefix (fractionAndRest_isPrefix _ _)

theorem number_isPrefix (text : List Char) : (number text).lexeme <+: text := by
  unfold number
  split
  · rename_i x rest
    split
    · split
      · exact (List.prefix_append_right_inj ['0', x]).mpr (digitsAndRest_isPrefix _ rest)
      · exact List.prefix_append ['0', x] rest
    · exact digitsAndRest_isPrefix _ _
  · exact digitsAndRest_isPrefix _ _

/-- A number that starts with a digit is that digit and a start of what follows it. -/
theorem number_eq_cons {c : Char} (h : c.isDigit = true) (rest : List Char) :
    ∃ more, (number (c :: rest)).lexeme = c :: more ∧ more <+: rest := by
  obtain ⟨x, more, hx⟩ := List.exists_cons_of_ne_nil (number_ne_nil h rest)
  have hp := number_isPrefix (c :: rest)
  rw [hx, List.cons_prefix_cons] at hp
  obtain ⟨rfl, hmore⟩ := hp
  exact ⟨more, hx, hmore⟩

/-! ## Literals -/

/-- A character that is no backslash is the closing quote, a line break, or a unit. -/
theorem literalBody_cons {c : Char} (hc : c ≠ '\\') (quote : Char) (rest : List Char) :
    literalBody quote (c :: rest) =
      if c = quote then ⟨[], .closed⟩
      else if c = '\r' ∨ c = '\n' then ⟨[], .lineBreak⟩
      else (literalBody quote rest).cons (.plain c) := by
  rw [literalBody]
  · exact fun h _ => hc h
  · exact fun _ _ h _ => hc h

/-- A backslash is alone at the end or starts an escape, so what is neither is no backslash. -/
theorem ne_backslash {c : Char} {rest : List Char} (hlone : c = '\\' → rest = [] → False)
    (hescape : ∀ d more, c = '\\' → rest = d :: more → False) : c ≠ '\\' := by
  intro hc
  cases rest with
  | nil => exact hlone hc rfl
  | cons d more => exact hescape d more hc rfl

@[simp] theorem width_cons (u : LiteralUnit) (body : LiteralBody) :
    (body.cons u).width = u.text.length + body.width := by
  simp only [LiteralBody.width, LiteralBody.text, LiteralBody.cons, List.flatMap_cons,
    List.length_append]
  omega

theorem take_width_append (u : LiteralUnit) (body : LiteralBody) (rest : List Char) :
    (u.text ++ rest).take (body.cons u).width = u.text ++ rest.take body.width := by
  rw [width_cons, List.take_length_add_append]

theorem take_width_escape (c : Char) (body : LiteralBody) (rest : List Char) :
    ('\\' :: c :: rest).take (body.cons (.escape c)).width = '\\' :: c :: rest.take body.width :=
  take_width_append (.escape c) body rest

theorem take_width_plain (c : Char) (body : LiteralBody) (rest : List Char) :
    (c :: rest).take (body.cons (.plain c)).width = c :: rest.take body.width :=
  take_width_append (.plain c) body rest

theorem width_le (quote : Char) (text : List Char) :
    (literalBody quote text).width ≤ text.length := by
  fun_induction literalBody quote text with
  | case1 => exact Nat.le_refl _
  | case2 => exact Nat.le_refl _
  | case3 c rest ih =>
    simp only [width_cons, LiteralUnit.text, List.length_cons, List.length_nil]
    omega
  | case4 rest => exact Nat.succ_le_succ (Nat.zero_le _)
  | case5 => exact Nat.succ_le_succ (Nat.zero_le _)
  | case6 c rest _ _ _ _ ih =>
    simp only [width_cons, LiteralUnit.text, List.length_cons, List.length_nil]
    omega

theorem literalBody_closed {quote : Char} {text : List Char}
    (h : (literalBody quote text).ending = .closed) :
    (literalBody quote text).text ++ [quote] <+: text := by
  fun_induction literalBody quote text with
  | case1 => cases h
  | case2 => cases h
  | case3 c rest ih =>
    show '\\' :: c :: ((literalBody quote rest).text ++ [quote]) <+: _
    exact List.cons_prefix_cons.mpr ⟨rfl, List.cons_prefix_cons.mpr ⟨rfl, ih h⟩⟩
  | case4 rest => exact List.cons_prefix_cons.mpr ⟨rfl, List.nil_prefix⟩
  | case5 => cases h
  | case6 c rest _ _ _ _ ih =>
    show c :: ((literalBody quote rest).text ++ [quote]) <+: _
    exact List.cons_prefix_cons.mpr ⟨rfl, ih h⟩

theorem literalBody_seesTextEnd {quote : Char} {text : List Char}
    (h : (literalBody quote text).ending.seesTextEnd = true) :
    text.drop (literalBody quote text).width = [] := by
  fun_induction literalBody quote text with
  | case1 => rfl
  | case2 => rfl
  | case3 c rest ih =>
    rw [width_cons, Nat.add_comm]
    exact ih h
  | case4 => cases h
  | case5 => cases h
  | case6 c rest _ _ _ _ ih =>
    rw [width_cons, Nat.add_comm]
    exact ih h

theorem take_width_of_closed {quote : Char} {text : List Char}
    (h : (literalBody quote text).ending = .closed) :
    text.take (literalBody quote text).width = (literalBody quote text).text ++ [quote] := by
  have hwidth : (literalBody quote text).width =
      ((literalBody quote text).text ++ [quote]).length := by
    rw [LiteralBody.width, h, List.length_append]
    rfl
  rw [hwidth]
  exact take_of_isPrefix (literalBody_closed h)

/-! ## Comments -/

theorem not_mem_lineRest (text : List Char) : '\n' ∉ lineRest text := by
  intro h
  simpa using List.mem_takeWhile_imp h

/-- The rest of a line has a line feed behind it, or is all there is. -/
theorem lineRest_cases (text : List Char) :
    (∃ behind, text = lineRest text ++ '\n' :: behind) ∨ text = lineRest text := by
  induction text with
  | nil => exact .inr rfl
  | cons c rest ih =>
    by_cases hc : c = '\n'
    · subst hc
      exact .inl ⟨rest, rfl⟩
    · have hline : lineRest (c :: rest) = c :: lineRest rest :=
        List.takeWhile_cons_of_pos (by simpa using hc)
      rw [hline]
      rcases ih with ⟨behind, hrest⟩ | hrest
      · exact .inl ⟨behind, congrArg (c :: ·) hrest⟩
      · exact .inr (congrArg (c :: ·) hrest)

/-- A block comment that is not closed has no closing in it. -/
theorem not_infix_of_blockWidth?_eq_none {text : List Char} (h : blockWidth? text = none) :
    ¬ ['*', '/'] <:+: text := by
  fun_induction blockWidth? text with
  | case1 => cases h
  | case2 c rest hc ih =>
    rw [List.infix_cons_iff]
    rintro (hstart | hlater)
    · obtain ⟨behind, hbehind⟩ := hstart
      obtain ⟨rfl, rfl⟩ := List.cons.inj hbehind
      exact hc behind rfl rfl
    · exact ih (Option.map_eq_none_iff.mp h) hlater
  | case3 => simp

/-- A closed block comment takes everything through the first closing in it. -/
theorem take_of_blockWidth?_eq_some {text : List Char} {width : Nat}
    (h : blockWidth? text = some width) :
    ∃ body, text.take width = body ++ ['*', '/'] ∧ ¬ ['*', '/'] <:+: body ++ ['*'] := by
  fun_induction blockWidth? text generalizing width with
  | case1 =>
    cases h
    exact ⟨[], rfl, by decide⟩
  | case2 c rest hc ih =>
    obtain ⟨w, hw, rfl⟩ := Option.map_eq_some_iff.mp h
    obtain ⟨body, htake, hfirst⟩ := ih hw
    refine ⟨c :: body, by rw [List.take_succ_cons, htake]; rfl, ?_⟩
    rw [List.cons_append, List.infix_cons_iff]
    rintro (hstart | hlater)
    · -- A closing right here would have ended the comment here.
      cases body with
      | nil => simp at hstart
      | cons x body =>
        obtain ⟨rfl, hslash⟩ := List.cons_prefix_cons.mp hstart
        obtain ⟨rfl, -⟩ := List.cons_prefix_cons.mp hslash
        have hrest := List.take_append_drop w rest
        rw [htake] at hrest
        exact hc _ rfl hrest.symm
    · exact hfirst hlater
  | case3 => cases h

theorem two_le_of_blockWidth? {text : List Char} {width : Nat} (h : blockWidth? text = some width) :
    2 ≤ width := by
  fun_induction blockWidth? text generalizing width with
  | case1 => exact (Option.some.inj h).le
  | case2 c rest _ ih =>
    obtain ⟨w, hw, rfl⟩ := Option.map_eq_some_iff.mp h
    exact Nat.le_succ_of_le (ih hw)
  | case3 => cases h

/-- How many characters there are through the first closing, where a star may stand before them. -/
def closingWidth? (afterStar : Bool) (text : List Char) : Option Nat :=
  if afterStar then (blockWidth? ('*' :: text)).map (· - 1) else blockWidth? text

theorem closingWidth?_nil (afterStar : Bool) : closingWidth? afterStar [] = none := by
  cases afterStar <;> rfl

theorem blockWidth?_cons (c : Char) (rest : List Char) :
    blockWidth? (c :: rest) = (closingWidth? (c == '*') rest).map (· + 1) := by
  by_cases hc : c = '*'
  · subst hc
    show _ = Option.map (· + 1) ((blockWidth? ('*' :: rest)).map (· - 1))
    cases hwidth : blockWidth? ('*' :: rest) with
    | none => rfl
    | some width =>
      have htwo := two_le_of_blockWidth? hwidth
      simp only [Option.map_some, Option.some.injEq]
      omega
  · have hstar : (c == '*') = false := by simpa using hc
    rw [hstar, blockWidth?]
    · rfl
    · exact fun _ h _ => hc h

/-- **A flag for the last star does what looking two characters ahead does.** -/
theorem closingWidth?_cons (afterStar : Bool) (c : Char) (rest : List Char) :
    closingWidth? afterStar (c :: rest) =
      if afterStar && c == '/' then some 1 else (closingWidth? (c == '*') rest).map (· + 1) := by
  rw [← blockWidth?_cons]
  cases afterStar with
  | false => rfl
  | true =>
    show (blockWidth? ('*' :: c :: rest)).map (· - 1) = _
    by_cases hc : c = '/'
    · subst hc
      rfl
    · have hslash : (true && c == '/') = false := by simpa using hc
      have hahead : blockWidth? ('*' :: c :: rest) = (blockWidth? (c :: rest)).map (· + 1) := by
        rw [blockWidth?]
        intro behind _ h
        exact hc (List.cons.inj h).1
      rw [hslash, hahead, Option.map_map]
      exact Option.map_id_apply

end CLexer.Lexeme
