import CLexer.Proofs.Quotation
import CLexer.Proofs.WellFormed

/-!
# Character constants, by the number of their units

A character constant is to hold one unit. The routine that reads one does not count units: it looks at
the length of what is stored and at the character behind the opening quote, which tells an escape.
The length is enough, because a second unit makes a constant longer than any single one
(`isMultichar_iff`).

What is between the quotes can be taken apart into units in one way only, so that their number is a
fact about the text. `Verdict` says what becomes of a constant with that many, and a constant that is
closed, and is not longer than a literal may be, gets its verdict.
-/

set_option autoImplicit false

namespace CLexer

open CLexer.Text CLexer.Lexeme

namespace Lexeme

/-- The characters of units can be taken apart in one way only. A backslash is no unit of its own. -/
theorem eq_of_unitsText_eq {units other : List LiteralUnit} (hunits : .plain '\\' ∉ units)
    (hother : .plain '\\' ∉ other) (h : unitsText other = unitsText units) : other = units := by
  induction units generalizing other with
  | nil => exact unitsText_eq_nil_iff.mp h
  | cons u units ih =>
    cases other with
    | nil => exact (unitsText_eq_nil_iff.mp h.symm).symm
    | cons v other =>
      rw [List.mem_cons, not_or] at hunits hother
      obtain ⟨hu, hunits⟩ := hunits
      obtain ⟨hv, hother⟩ := hother
      have hsplit : v.text ++ unitsText other = u.text ++ unitsText units := h
      cases u with
      | plain c =>
        cases v with
        | plain d =>
          obtain ⟨rfl, hrest⟩ := List.cons.inj hsplit
          rw [ih hunits hother hrest]
        | escape d =>
          obtain ⟨rfl, -⟩ := List.cons.inj hsplit
          exact absurd rfl hu
      | escape c =>
        cases v with
        | plain d =>
          obtain ⟨rfl, -⟩ := List.cons.inj hsplit
          exact absurd rfl hv
        | escape d =>
          obtain ⟨-, hescaped⟩ := List.cons.inj hsplit
          obtain ⟨rfl, hrest⟩ := List.cons.inj hescaped
          rw [ih hunits hother hrest]

theorem not_mem_of_fits {quote : Char} {units : List LiteralUnit} (h : ∀ u ∈ units, u.Fits quote) :
    .plain '\\' ∉ units := fun hmem => (h _ hmem).1 rfl

end Lexeme

/-- What becomes of a character constant with a number of units: the token, and what is said. -/
inductive Verdict (options : Options) (start : Position) (text : String) :
    Nat → Option Token → List Diagnostic → Prop
  | empty : Verdict options start text 0 none [⟨.error, start, "empty character constant"⟩]
  | single (htext : text ≠ "") :
      Verdict options start text 1 (some ⟨.charConstant, text, start, htext⟩) []
  | kept {n : Nat} (hmany : 2 ≤ n) (hkeep : options.keepMultichar = true) (htext : text ≠ "") :
      Verdict options start text n (some ⟨.charConstant, text, start, htext⟩)
        [⟨.warning, start, "multi-character character constant"⟩]
  | dropped {n : Nat} (hmany : 2 ≤ n) (hdrop : options.keepMultichar = false) :
      Verdict options start text n none
        [⟨.warning, start, "multi-character character constant"⟩]

variable {options : Options} {quote : Char} {units : List LiteralUnit} {text : String}
  {ctx : Context}

/-! ## Constants in front of a text -/

/-- A literal in quotes that the text starts with is what is read behind its opening quote. -/
theorem IsQuoted.literalBody_eq (h : IsQuoted options quote units text) (hquote : quote ≠ '\\')
    {ahead : List Char} (hahead : text.toList <+: quote :: ahead) :
    literalBody quote ahead = ⟨units, .closed⟩ := by
  obtain ⟨rest, hrest⟩ := hahead
  rw [h.shape, List.cons_append, List.append_assoc, List.singleton_append] at hrest
  rw [← (List.cons.inj hrest).2]
  exact literalBody_of_units hquote h.fits rest

theorem IsQuoted.storedLength_eq (h : IsQuoted options quote units text) :
    Piece.storedLength ⟨units, .closed⟩ = text.toList.length := by
  rw [Piece.storedLength_of_closed rfl, h.shape, List.length_cons, List.length_append]
  rfl

namespace Scan

/-- A literal is found closed if it stands in quotes in front of the text, and not otherwise. -/
theorem quoted_closed_iff (hquote : quote ≠ '\\') (hb : ctx.Bounded) (hheld : ctx.held = []) :
    (quoted quote ctx).result = .ok .closed ↔
      ∃ units text, IsQuoted ctx.options quote units text ∧ text.toList <+: quote :: ctx.unread := by
  rw [result_quoted hquote hb hheld]
  constructor
  · intro hresult
    have hfits : Piece.fits ctx.options (Piece.storedLength (literalBody quote ctx.unread)) = true := by
      by_contra hfits
      rw [if_neg hfits] at hresult
      cases hresult
    have hclosed : (literalBody quote ctx.unread).ending = .closed := by
      by_contra hopen
      rw [if_pos hfits] at hresult
      cases hending : (literalBody quote ctx.unread).ending with
      | closed => exact hopen hending
      | lineBreak | textEnd | danglingEscape =>
        rw [hending] at hresult
        cases hresult
    have hahead := literalBody_closed hclosed
    rw [Piece.storedLength_of_closed hclosed] at hfits
    refine ⟨_, String.ofList (quote :: ((literalBody quote ctx.unread).text ++ [quote])),
      ⟨String.toList_ofList, fits_of_mem_literalBody, ?_⟩, ?_⟩
    · rw [← Piece.fits_iff, String.toList_ofList]
      simpa using hfits
    · rw [String.toList_ofList]
      exact List.cons_prefix_cons.mpr ⟨rfl, hahead⟩
  · rintro ⟨units, text, hquoted, hahead⟩
    have hfits := Piece.fits_iff.mpr hquoted.within
    rw [hquoted.literalBody_eq hquote hahead, hquoted.storedLength_eq, if_pos hfits]
    rfl

/-! ## The verdict -/

/-- A closed constant that fits is made into what its units call for. -/
theorem verdict_closedChar (start : Position) (h : IsQuoted options apostrophe units text) :
    ∃ value : Option Token,
      Verdict options start text units.length value
        ((Piece.closedChar options (unitsText units)).2.map (·.diagnostic start)) ∧
      value.toList = Cut.tokens start (Piece.closedChar options (unitsText units)).1 := by
  have hchars : text = String.ofList (apostrophe :: (unitsText units ++ [apostrophe])) := by
    rw [← h.shape, String.ofList_toList]
  subst hchars
  let cut : Cut := ⟨.charConstant, apostrophe, unitsText units ++ [apostrophe]⟩
  have hmulti := isMultichar_iff h.fits
  unfold Piece.closedChar
  dsimp only
  by_cases hempty : unitsText units = []
  · rw [if_pos hempty, unitsText_eq_nil_iff.mp hempty]
    exact ⟨none, .empty, rfl⟩
  have hpos : 0 < units.length :=
    List.length_pos_iff.mpr fun hnil => hempty (unitsText_eq_nil_iff.mpr hnil)
  rw [if_neg hempty]
  by_cases hmany : isMultichar cut.chars = true
  · rw [if_pos hmany]
    have htwo : 2 ≤ units.length := hmulti.mp hmany
    cases hkeep : options.keepMultichar with
    | true => exact ⟨some (cut.token start), .kept htwo hkeep (cut.token start).text_ne, rfl⟩
    | false => exact ⟨none, .dropped htwo hkeep, rfl⟩
  · rw [if_neg hmany]
    have hone : units.length = 1 := by
      have := mt hmulti.mpr hmany
      omega
    rw [hone]
    exact ⟨some (cut.token start), .single (cut.token start).text_ne, rfl⟩

/-- **A character constant is classified by the number of its units.** Its opening quote was just read,
and nothing is stored. It is found closed, and not too long, if it stands in quotes in front of the
text. It can then be taken apart into units in one way only, all of it is read, and their number gives
the verdict. -/
theorem charConstant_by_units (hb : ctx.Bounded) (hheld : ctx.held = []) :
    ((quoted apostrophe ctx).result = .ok .closed ↔
      ∃ units text, IsQuoted ctx.options apostrophe units text ∧
        text.toList <+: apostrophe :: ctx.unread) ∧
    ∀ units text, IsQuoted ctx.options apostrophe units text →
      text.toList <+: apostrophe :: ctx.unread →
      (∀ other, .plain '\\' ∉ other → unitsText other = unitsText units → other = units) ∧
      ∃ value ds, Verdict ctx.options ctx.start text units.length value ds ∧
        Ends charConstant ctx value (unitsText units ++ [apostrophe]) text.toList ds := by
  refine ⟨quoted_closed_iff (by decide) hb hheld, fun units text hquoted hahead => ⟨?_, ?_⟩⟩
  · exact fun other hother => eq_of_unitsText_eq (not_mem_of_fits hquoted.fits) hother
  · have hbody := hquoted.literalBody_eq (by decide) hahead
    have hclosed : (literalBody apostrophe ctx.unread).ending = .closed := by rw [hbody]
    have hfits := Piece.fits_iff.mpr hquoted.within
    rw [← hquoted.storedLength_eq, Piece.storedLength_of_closed rfl] at hfits
    obtain ⟨value, hvalue, hends⟩ := Ends.literal_closed_of_fits (.inl rfl) hb hheld hclosed
      (by rw [hbody]; exact hfits)
    obtain ⟨value', hverdict, hvalue'⟩ := verdict_closedChar ctx.start hquoted
    rw [hbody] at hvalue hends
    obtain rfl : value = value' := by
      simpa using congrArg List.head? (hvalue.trans hvalue'.symm)
    refine ⟨value, _, hverdict, ?_⟩
    rw [hquoted.shape]
    exact hends

/-- The first of three backslashes escapes the second and the third one the quote, so that there are
three units with the letter. -/
theorem charConstant_by_units_of_escapes :
    let ctx := (begin (next (Context.ofText "'\\\\\\'a';".toList .standard {})).context).context
    (ctx.Bounded ∧ ctx.held = []) ∧
      Ends charConstant ctx none "\\\\\\'a'".toList "'\\\\\\'a'".toList
        [⟨.warning, ⟨1, 1⟩, "multi-character character constant"⟩] := by
  intro ctx
  have hfresh : ctx.Fresh := Context.fresh_ofText _ _ _ _
  have hquoted : IsQuoted ctx.options apostrophe [.escape '\\', .escape apostrophe, .plain 'a']
      "'\\\\\\'a'" := ⟨by decide, by simp [LiteralUnit.Fits, apostrophe], fun l hl => by cases hl⟩
  obtain ⟨-, value, ds, hverdict, hends⟩ :=
    (charConstant_by_units hfresh.toBounded hfresh.held).2 _ _ hquoted ⟨[';'], by decide⟩
  refine ⟨⟨hfresh.toBounded, hfresh.held⟩, ?_⟩
  cases hverdict with
  | kept _ hkeep => cases hkeep
  | dropped => exact hends

end Scan

end CLexer
