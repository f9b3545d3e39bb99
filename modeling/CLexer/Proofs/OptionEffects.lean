import CLexer.Proofs.Rescan

/-!
# What options have a say in

Five things can be set for a scan, and two of them decide how a text is taken apart: how long a word
and how long a literal may be. The other three only change what is seen of it.

The room that a buffer starts with is never seen: a buffer takes as much as its limit allows,
however often it has to grow for that, and no piece of a text speaks of room. Whether notices are
kept is up to the collector, which sits behind the scan. Whether a character constant with several
units is kept is up to the scan, but only once such a constant has been read and remarked on, and
nothing is read differently for it.

So two scans of one text are compared piece by piece: `Piece.of_congr` where nothing may differ,
`Piece.thins_of` where only such constants may.
-/

set_option autoImplicit false

namespace CLexer

open CLexer.Text CLexer.Lexeme

/-- Words may be equally long, and so may literals. -/
structure Options.SameLimits (o o' : Options) : Prop where
  word : o'.wordLimit = o.wordLimit
  lexeme : o'.lexemeLimit = o.lexemeLimit

variable {tables : Tables} {o o' : Options} {c : Char}

theorem Options.SameLimits.of_settings (hword : o'.settings.wordLimit = o.settings.wordLimit)
    (hlexeme : o'.settings.lexemeLimit = o.settings.lexemeLimit) : o.SameLimits o' where
  word := Int.ofNat.inj hword
  lexeme := Option.map_injective (fun _ _ => Int.ofNat.inj) hlexeme

/-! ## Pieces that are the same -/

namespace Piece

theorem fits_congr (h : o.SameLimits o') : fits o' = fits o := by
  funext n
  simp only [fits, h.lexeme]

theorem tooLong_congr (h : o.SameLimits o') : tooLong o' = tooLong o := by
  simp only [tooLong, h.lexeme]

theorem word_congr (h : o.SameLimits o') : word tables o' = word tables o := by
  funext c rest
  simp only [word, h.word]

theorem number_congr (h : o.SameLimits o') : number o' = number o := by
  funext c rest
  simp only [number, fits_congr h, tooLong_congr h, h.lexeme]

theorem literal_congr (h : o.SameLimits o') : literal o' = literal o := by
  funext quote rest closed
  simp only [literal, fits_congr h, tooLong_congr h]

theorem punctuation_congr (h : o.SameLimits o') : punctuation tables o' = punctuation tables o := by
  funext c rest
  simp only [punctuation, directive, h.word]

/-- With the same limits, only a closed character constant can be taken in two ways. -/
theorem of_congr (h : o.SameLimits o') (hchar : c = apostrophe → closedChar o' = closedChar o)
    (rest : List Char) : of tables o' c rest = of tables o c rest := by
  unfold of lexeme
  by_cases hc : c = apostrophe
  · rw [literal_congr h, hchar hc, number_congr h, word_congr h, punctuation_congr h]
  · simp only [if_neg hc]
    rw [literal_congr h, number_congr h, word_congr h, punctuation_congr h]

theorem closedChar_congr (hkeep : o'.keepMultichar = o.keepMultichar) :
    closedChar o' = closedChar o := by
  funext inside
  simp only [closedChar, hkeep]

/-! ## Pieces that are the same but for some constants -/

/-- The piece `p'` is `p` without its character constants of several units. -/
structure Thins (p p' : Piece) : Prop where
  more : p'.more = p.more
  remarks : p'.remarks = p.remarks
  tokens : ∀ start, p'.tokens start = (p.tokens start).filter fun t => !t.isMultichar

theorem thins_refl {p : Piece} (h : ∀ start, ∀ t ∈ p.tokens start, t.isMultichar = false) :
    Thins p p where
  more := rfl
  remarks := rfl
  tokens := by
    intro start
    refine (List.filter_eq_self.mpr fun t ht => ?_).symm
    rw [h start t ht]
    rfl

end Piece

/-- A token that is well formed has several units if it looks like that. -/
theorem WellFormed.isMultichar_iff {t : Token} (h : WellFormed tables o t.text t.kind) :
    t.isMultichar = true ↔
      t.kind = .charConstant ∧ ∃ units, IsQuoted o apostrophe units t.text ∧ 1 < units.length := by
  obtain ⟨k, hk⟩ := t.exists_cut
  have hread : ∀ units, t.kind = .charConstant → IsQuoted o apostrophe units t.text →
      t.isMultichar = decide (1 < units.length) := by
    intro units hkind hquoted
    rw [hk] at hkind hquoted ⊢
    exact isMultichar_token hquoted hkind _
  constructor
  · intro hmulti
    have hkind : t.kind = .charConstant := by
      by_contra hne
      simp [Token.isMultichar, hne] at hmulti
    rw [hkind] at h
    obtain ⟨units, hquoted, -⟩ := h
    rw [hread units hkind hquoted, decide_eq_true_eq] at hmulti
    exact ⟨hkind, units, hquoted, hmulti⟩
  · rintro ⟨hkind, units, hquoted, hmany⟩
    rw [hread units hkind hquoted]
    exact decide_eq_true hmany

/-- Where such constants are dropped, no token is one. -/
theorem WellFormed.not_isMultichar {t : Token} (h : WellFormed tables o t.text t.kind)
    (hdrop : o.keepMultichar = false) : t.isMultichar = false := by
  by_contra hmulti
  obtain ⟨k, hk⟩ := t.exists_cut
  obtain ⟨hkind, -⟩ := h.isMultichar_iff.mp (by simpa using hmulti)
  have hform := h
  rw [hkind] at hform
  obtain ⟨units, hquoted, -, hsingle⟩ := hform
  rw [hk] at hmulti hquoted hkind
  rw [isMultichar_token hquoted hkind, hsingle hdrop] at hmulti
  exact hmulti rfl

namespace Piece

theorem thins_closedChar (hkeep : o.keepMultichar = true) (hdrop : o'.keepMultichar = false)
    {units : List LiteralUnit}
    (h : IsQuoted o apostrophe units
      (String.ofList (apostrophe :: (unitsText units ++ [apostrophe])))) (more : List Char) :
    Thins ⟨more, (closedChar o (unitsText units)).1, (closedChar o (unitsText units)).2⟩
      ⟨more, (closedChar o' (unitsText units)).1, (closedChar o' (unitsText units)).2⟩ := by
  have hlook := isMultichar_iff h.fits
  have htoken := isMultichar_token h
    (k := ⟨.charConstant, apostrophe, unitsText units ++ [apostrophe]⟩) rfl
  simp only [closedChar, hkeep, hdrop, if_true, if_neg Bool.false_ne_true]
  split
  · exact thins_refl fun start t ht => by cases ht
  · split
    · rename_i hmany
      refine ⟨rfl, rfl, fun start => ?_⟩
      have hunits := hlook.mp hmany
      simp [tokens, Cut.tokens, htoken, hunits]
    · rename_i hsingle
      refine thins_refl fun start t ht => ?_
      rw [List.mem_singleton.mp ht, htoken, decide_eq_false (mt hlook.mpr hsingle)]

/-- **Dropping constants of several units changes nothing else about a piece.** -/
theorem thins_of (h : o.SameLimits o') (hkeep : o.keepMultichar = true)
    (hdrop : o'.keepMultichar = false) (c : Char) (rest : List Char) :
    Thins (of tables o c rest) (of tables o' c rest) := by
  have hplain : ∀ start, ∀ t ∈ (of tables o' c rest).tokens start, t.isMultichar = false :=
    fun start t ht => (forms_tokens (forms_of c rest) start t ht).not_isMultichar hdrop
  by_cases hc : c = apostrophe
  · subst hc
    have hof : ∀ options, of tables options apostrophe rest =
        literal options apostrophe rest (closedChar options) := fun _ => rfl
    rw [hof, hof, literal_congr h]
    by_cases hclosed : (literalBody apostrophe rest).ending = .closed
    · rw [literal_of_closed _ hclosed, literal_of_closed _ hclosed]
      split
      · rename_i hfits
        refine thins_closedChar hkeep hdrop ⟨String.toList_ofList, fits_of_mem_literalBody, ?_⟩ _
        rw [← fits_iff, String.toList_ofList]
        simpa [unitsText, LiteralBody.text, Nat.add_assoc] using hfits
      · exact thins_refl fun start t ht => by cases ht
    · rw [literal_of_open _ hclosed, literal_of_open _ hclosed]
      exact thins_refl fun start t ht => by cases ht
  · rw [of_congr h (fun hquote => absurd hquote hc)] at hplain ⊢
    exact thins_refl hplain

end Piece

/-! ## Whole scans -/

theorem outputOf_congr (h : o.SameLimits o') (hkeep : o'.keepMultichar = o.keepMultichar)
    (before text : List Char) : outputOf tables o' before text = outputOf tables o before text := by
  have hpiece : ∀ c rest, Piece.of tables o' c rest = Piece.of tables o c rest := fun c rest =>
    Piece.of_congr h (fun _ => Piece.closedChar_congr hkeep) rest
  induction before, text using pieces_induction tables o with
  | nil before => rw [outputOf_nil, outputOf_nil]
  | cons before c rest ih => rw [outputOf_cons, outputOf_cons, hpiece, ih]

theorem outputOf_thins (h : o.SameLimits o') (hkeep : o.keepMultichar = true)
    (hdrop : o'.keepMultichar = false) (before text : List Char) :
    let out := outputOf tables o before text
    outputOf tables o' before text = (out.1.filter fun t => !t.isMultichar, out.2) := by
  induction before, text using pieces_induction tables o with
  | nil before =>
    rw [outputOf_nil, outputOf_nil]
    rfl
  | cons before c rest ih =>
    have hpiece : Piece.Thins (Piece.of tables o c rest) (Piece.of tables o' c rest) :=
      Piece.thins_of h hkeep hdrop c rest
    intro out
    simp only [out, outputOf_cons, hpiece.more, ih, hpiece.tokens, List.filter_append,
      Piece.diagnostics, hpiece.remarks]

/-- **Each option acts on what it is there for, and on nothing else.** Two scans of a text with
options that differ in one of them: the capacity makes no difference at all; without `verbose` the
notices are missing and everything else is there; without `keepMultichar` the character constants
with several units are missing from the tokens, and everything else is there. -/
theorem options_act_apart (text : String) (tables : Tables) (o o' : Options) :
    let run := fun options : Options => scanText text tables options [.collector options.verbose]
    (run o).failure = none ∧ (run o').failure = none ∧
      (o'.settings = { o.settings with capacity := o'.capacity } →
        (run o').tokens = (run o).tokens ∧ (run o').kept = (run o).kept) ∧
      (o.verbose = true → o'.settings = { o.settings with verbose := false } →
        (run o').tokens = (run o).tokens ∧
          (run o').kept = (run o).kept.filter fun d => d.severity ≠ .debug) ∧
      (o.keepMultichar = true → o'.settings = { o.settings with keepMultichar := false } →
        (run o').kept = (run o).kept ∧
          (run o').tokens = ((run o).tokens.filter fun t => !t.isMultichar) ∧
          ∀ t ∈ (run o).tokens, t.isMultichar = true ↔
            t.kind = .charConstant ∧
              ∃ units, IsQuoted o apostrophe units t.text ∧ 1 < units.length) := by
  intro run
  obtain ⟨hfailure, htokens, hkept⟩ :=
    scanInput_collector text.toList tables o o.verbose "<input>"
  obtain ⟨hfailure', htokens', hkept'⟩ :=
    scanInput_collector text.toList tables o' o'.verbose "<input>"
  have htext : ∀ options, run options =
      scanInput ⟨text.toList, none⟩ tables options [.collector options.verbose] "<input>" :=
    fun _ => rfl
  simp only [htext]
  refine ⟨hfailure, hfailure', fun hsame => ?_, fun hverbose hsame => ?_, fun hkeep hsame => ?_⟩
  · have hlimits : o.SameLimits o' :=
      .of_settings (by rw [hsame]) (by rw [hsame])
    have hmulti : o'.keepMultichar = o.keepMultichar := congrArg Settings.keepMultichar hsame
    have hverbose : o'.verbose = o.verbose := congrArg Settings.verbose hsame
    rw [outputOf_congr hlimits hmulti] at htokens' hkept'
    rw [htokens, htokens', hkept, hkept', hverbose]
    exact ⟨rfl, rfl⟩
  · have hlimits : o.SameLimits o' := .of_settings (by rw [hsame]) (by rw [hsame])
    have hmulti : o'.keepMultichar = o.keepMultichar := congrArg Settings.keepMultichar hsame
    have hquiet : o'.verbose = false := congrArg Settings.verbose hsame
    rw [outputOf_congr hlimits hmulti] at htokens' hkept'
    rw [htokens, htokens', hkept, hkept', hverbose, hquiet, List.filter_filter]
    refine ⟨rfl, List.filter_congr fun d _ => ?_⟩
    simp [Sink.admits, Sink.collector]
  · have hlimits : o.SameLimits o' := .of_settings (by rw [hsame]) (by rw [hsame])
    have hdrop : o'.keepMultichar = false := congrArg Settings.keepMultichar hsame
    have hverbose : o'.verbose = o.verbose := congrArg Settings.verbose hsame
    rw [outputOf_thins hlimits hkeep hdrop] at htokens' hkept'
    rw [htokens, htokens', hkept, hkept', hverbose]
    exact ⟨rfl, rfl, fun t ht => (wellFormed_of_mem_outputOf [] _ t ht).isMultichar_iff⟩

/-- A comment, a constant with two units, and a buffer with room for one character. -/
theorem options_act_apart_on_warning :
    let o : Options := { verbose := true, keepMultichar := true }
    let cramped : Options := { capacity := 1, verbose := true, keepMultichar := true }
    let quiet : Options := { keepMultichar := true }
    let strict : Options := { verbose := true }
    let run := fun options : Options =>
      scanText "x //\n\x27ab\x27" .standard options [.collector options.verbose]
    ((run o).tokens.length = 2 ∧ (run o).kept.length = 2) ∧
      ((run cramped).tokens = (run o).tokens ∧ (run cramped).kept = (run o).kept) ∧
      ((run quiet).tokens = (run o).tokens ∧
        (run quiet).kept = (run o).kept.filter fun d => d.severity ≠ .debug) ∧
      (run strict).kept = (run o).kept ∧
        (run strict).tokens = (run o).tokens.filter fun t => !t.isMultichar := by
  intro o cramped quiet strict run
  obtain ⟨-, -, hcapacity, -⟩ := options_act_apart "x //\n\x27ab\x27" .standard o cramped
  obtain ⟨-, -, -, hverbose, -⟩ := options_act_apart "x //\n\x27ab\x27" .standard o quiet
  obtain ⟨-, -, -, -, hmulti⟩ := options_act_apart "x //\n\x27ab\x27" .standard o strict
  obtain ⟨hkept, htokens, -⟩ := hmulti rfl rfl
  exact ⟨by decide +kernel, hcapacity rfl, hverbose rfl rfl, hkept, htokens⟩

end CLexer
