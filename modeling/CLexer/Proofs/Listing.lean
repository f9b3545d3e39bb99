import CLexer.Command.Run
import CLexer.Proofs.Separation
import CLexer.Proofs.WellFormed

/-!
# Listings can be read back

A listing is one entry for each token, `<label, text>` and a line feed, and the text stands there as
it is. A literal may hold anything behind a backslash, line feeds too, so an entry need not be one
line, and the further lines of a literal can look just like entries.

They are still told apart. The label of an entry says of which kind its token is, and the kind says
where its text ends: a literal ends with its closing quote, found as a scanner finds it; the text of
any other token holds no blank and so ends in front of the line feed. `readListing` reads a listing
in this way, and gets the kinds and texts of its tokens back (`readListing_listingText`).
-/

set_option autoImplicit false

namespace CLexer

open CLexer.Text CLexer.Lexeme

/-! ## Labels -/

def TokenKind.ofLabel? (label : List Char) : Option TokenKind :=
  all.find? (·.label.toList == label)

theorem TokenKind.ofLabel?_label (kind : TokenKind) : ofLabel? kind.label.toList = some kind := by
  cases kind <;> decide

theorem TokenKind.comma_not_mem_label (kind : TokenKind) : ',' ∉ kind.label.toList := by
  cases kind <;> decide

/-! ## Where a text ends -/

/-- What a recogniser takes as a whole holds no blank, if a blank makes an end for it. -/
theorem not_mem_of_separated {f : List Char → List Char} (htakes : ∀ text, f text <+: text)
    (hends : ∀ text behind, Separated behind → f (text ++ behind) = f text) {text : List Char}
    (h : f text = text) {b : Char} (hb : isBlank b = true) : b ∉ text := by
  intro hmem
  obtain ⟨front, back, rfl⟩ := List.append_of_mem hmem
  rw [hends front (b :: back) (separated_cons hb back)] at h
  have hle := (htakes front).length_le
  rw [h, List.length_append, List.length_cons] at hle
  omega

theorem IsWord.not_mem {options : Options} {text : String} (h : IsWord options text) {b : Char}
    (hb : isBlank b = true) : b ∉ text.toList := by
  obtain ⟨c, more, htext, hc, hmore⟩ := h.shape
  refine not_mem_of_separated word_isPrefix (fun text _ hsep => word_separated hsep text) ?_ hb
  refine List.takeWhile_eq_self_iff.mpr fun d hd => ?_
  rw [htext] at hd
  rcases List.mem_cons.mp hd with rfl | hd
  · exact isWordChar_of_isWordStart hc
  · exact hmore d hd

theorem IsSymbol.ne_blank {c b : Char} (h : IsSymbol c) (hb : isBlank b = true) : b ≠ c := by
  rintro rfl
  have hnot : isPunctuation b = false :=
    forall_isBlank (p := fun c => isPunctuation c = false) (by decide) hb
  rw [h.punctuation] at hnot
  cases hnot

variable {tables : Tables} {options : Options} {kind : TokenKind} {text : String}

/-- Only literals hold blanks. -/
theorem WellFormed.not_mem (h : WellFormed tables options text kind)
    (hchar : kind ≠ .charConstant) (hstring : kind ≠ .stringConstant) {b : Char}
    (hb : isBlank b = true) : b ∉ text.toList := by
  cases kind with
  | keyword => exact h.1.not_mem hb
  | identifier => exact h.1.not_mem hb
  | operator =>
    rcases h with ⟨hword, -⟩ | ⟨c, more, htext, hc, -, hmore⟩
    · exact hword.not_mem hb
    · rw [htext, List.mem_cons, not_or]
      exact ⟨hc.ne_blank hb, not_mem_of_separated (operatorTail_isPrefix [c])
        (fun text _ hsep => operatorTail_separated hsep [c] text)
        (operatorTail_of_continues hmore) hb⟩
  | delimiter =>
    obtain ⟨c, htext, hc, -⟩ := h
    rw [htext, List.mem_singleton]
    exact hc.ne_blank hb
  | numericConstant =>
    have hread : (number text.toList).lexeme = text.toList := by rw [number_of_numeral h.1]
    exact not_mem_of_separated (f := fun text => (number text).lexeme) number_isPrefix
      (fun text _ hsep => congrArg NumberReading.lexeme (number_separated hsep text)) hread hb
  | charConstant => exact absurd rfl hchar
  | stringConstant => exact absurd rfl hstring
  | directive =>
    obtain ⟨-, -, ⟨name, htext, -, hname⟩, -⟩ := h
    rw [htext, List.mem_cons, not_or]
    refine ⟨?_, not_mem_of_separated letters_isPrefix
      (fun text _ hsep => letters_separated hsep text)
      (List.takeWhile_eq_self_iff.mpr hname) hb⟩
    rintro rfl
    cases hb
  | specialSymbol =>
    obtain ⟨c, hc, -, -, ⟨htext, -⟩ | ⟨htext, rfl⟩⟩ := h
    · rw [htext, List.mem_singleton]
      exact hc.ne_blank hb
    · have hne := hc.ne_blank hb
      simp [htext, hne]

namespace Command

/-! ## Reading -/

/-- The text of a token of a kind, from a listing that goes on with it. -/
def lexemeAt (kind : TokenKind) (listing : List Char) : List Char :=
  match kind with
  | .charConstant => listing.take ((literalBody apostrophe listing.tail).width + 1)
  | .stringConstant => listing.take ((literalBody doubleQuote listing.tail).width + 1)
  | _ => (lineRest listing).dropLast

/-- The kind and the text of the first entry of a listing, and the listing behind it. -/
def readEntry : List Char → Option (TokenKind × String × List Char)
  | '<' :: rest =>
      let label := rest.takeWhile (· ≠ ',')
      let body := rest.drop (label.length + 2)
      (TokenKind.ofLabel? label).map fun kind =>
        let lexeme := lexemeAt kind body
        (kind, String.ofList lexeme, body.drop (lexeme.length + 2))
  | _ => none

theorem length_of_readEntry {listing behind : List Char} {kind : TokenKind} {text : String}
    (h : readEntry listing = some (kind, text, behind)) : behind.length < listing.length := by
  unfold readEntry at h
  split at h
  · obtain ⟨_, -, heq⟩ := Option.map_eq_some_iff.mp h
    obtain ⟨-, -, rfl⟩ := heq
    simp only [List.length_drop, List.length_cons]
    omega
  · cases h

/-- The kinds and texts of the entries of a listing. -/
def readListing (listing : List Char) : List (TokenKind × String) :=
  match h : readEntry listing with
  | none => []
  | some (kind, text, behind) =>
      have := length_of_readEntry h
      (kind, text) :: readListing behind
termination_by listing.length

theorem readListing_of_entry {listing behind : List Char}
    (h : readEntry listing = some (kind, text, behind)) :
    readListing listing = (kind, text) :: readListing behind := by
  rw [readListing]
  split
  · simp_all
  · simp_all

/-! ## What was listed is read back -/

theorem lexemeAt_of_quoted {quote : Char} (hquote : quote ≠ '\\') {units : List LiteralUnit}
    (h : IsQuoted options quote units text) (behind : List Char) :
    (text.toList ++ behind).take ((literalBody quote (text.toList ++ behind).tail).width + 1) =
      text.toList := by
  have hbody : literalBody quote (text.toList ++ behind).tail = ⟨units, .closed⟩ := by
    rw [h.shape]
    simpa using literalBody_of_units hquote h.fits behind
  rw [hbody]
  refine List.take_left' ?_
  simp [h.shape, LiteralBody.width, LiteralBody.text, LiteralEnd.width, unitsText]

/-- **The kind of a token tells where its text ends.** -/
theorem lexemeAt_of_wellFormed (h : WellFormed tables options text kind) (behind : List Char) :
    lexemeAt kind (text.toList ++ '>' :: '\n' :: behind) = text.toList := by
  by_cases hchar : kind = .charConstant
  · subst hchar
    obtain ⟨units, hquoted, -⟩ := h
    exact lexemeAt_of_quoted (by decide) hquoted _
  by_cases hstring : kind = .stringConstant
  · subst hstring
    obtain ⟨units, hquoted⟩ := h
    exact lexemeAt_of_quoted (by decide) hquoted _
  have hfeed := h.not_mem hchar hstring (b := '\n') rfl
  have hline : lineRest (text.toList ++ '>' :: '\n' :: behind) = text.toList ++ ['>'] := by
    rw [List.append_cons, lineRest_break]
    refine List.takeWhile_eq_self_iff.mpr fun c hc => ?_
    rcases List.mem_append.mp hc with hc | hc
    · exact decide_eq_true fun heq => hfeed (heq ▸ hc)
    · rw [List.mem_singleton.mp hc]
      rfl
  have hplain : lexemeAt kind (text.toList ++ '>' :: '\n' :: behind) =
      (lineRest (text.toList ++ '>' :: '\n' :: behind)).dropLast := by
    unfold lexemeAt
    split
    · exact absurd rfl hchar
    · exact absurd rfl hstring
    · rfl
  rw [hplain, hline, List.dropLast_concat]

theorem readEntry_render {t : Token} (h : WellFormed tables options t.text t.kind)
    (behind : List Char) :
    readEntry ((t.render ++ "\n").toList ++ behind) = some (t.kind, t.text, behind) := by
  have hentry : (t.render ++ "\n").toList ++ behind =
      '<' :: (t.kind.label.toList ++ ',' :: ' ' :: (t.text.toList ++ '>' :: '\n' :: behind)) := by
    simp [Token.render]
  generalize hbody : t.text.toList ++ '>' :: '\n' :: behind = body at hentry
  have hcomma : ∀ c ∈ t.kind.label.toList, decide (c ≠ ',') = true := by
    intro c hc
    refine decide_eq_true fun heq => t.kind.comma_not_mem_label ?_
    rwa [heq] at hc
  have hlabel : (t.kind.label.toList ++ ',' :: ' ' :: body).takeWhile (· ≠ ',') =
      t.kind.label.toList := by
    rw [List.takeWhile_append_of_pos hcomma]
    simp
  have hdrop : (t.kind.label.toList ++ ',' :: ' ' :: body).drop (t.kind.label.toList.length + 2) =
      body := by
    rw [List.drop_length_add_append]
    rfl
  simp only [hentry, readEntry, hlabel, hdrop, TokenKind.ofLabel?_label, Option.map_some]
  rw [← hbody, lexemeAt_of_wellFormed h, List.drop_length_add_append, String.ofList_toList]
  rfl

/-- **A listing gives back the kinds and texts of its tokens.** -/
theorem readListing_listingText {ts : List Token}
    (h : ∀ t ∈ ts, WellFormed tables options t.text t.kind) :
    readListing (listingText ts).toList = ts.map fun t => (t.kind, t.text) := by
  induction ts with
  | nil =>
    rw [readListing]
    rfl
  | cons t ts ih =>
    have hcons : (listingText (t :: ts)).toList =
        (t.render ++ "\n").toList ++ (listingText ts).toList := by
      rw [listingText_cons, String.toList_append]
    rw [hcons, readListing_of_entry (readEntry_render (h t List.mem_cons_self) _),
      ih fun t' ht' => h t' (List.mem_cons_of_mem t ht'), List.map_cons]

/-- **Two scans with the same listing have the same tokens,** but for their positions: as many of
them, with the same kinds and texts in the same order. The texts, tables, options and sinks of the
two scans need have nothing to do with each other. -/
theorem listing_determines_tokens (input input' : Input) (tables tables' : Tables)
    (options options' : Options) (chain chain' : Chain) (source source' : String)
    (h : listingText (scanInput input tables options chain source).tokens =
      listingText (scanInput input' tables' options' chain' source').tokens) :
    (scanInput input tables options chain source).tokens.map (fun t => (t.kind, t.text)) =
      (scanInput input' tables' options' chain' source').tokens.map fun t => (t.kind, t.text) := by
  have hforms : ∀ t ∈ (scanInput input tables options chain source).tokens,
      WellFormed tables options t.text t.kind := fun t ht =>
    wellFormed_of_mem_outputOf [] input.chars t
      ((tokens_isPrefix input tables options chain source).mem ht)
  have hforms' : ∀ t ∈ (scanInput input' tables' options' chain' source').tokens,
      WellFormed tables' options' t.text t.kind := fun t ht =>
    wellFormed_of_mem_outputOf [] input'.chars t
      ((tokens_isPrefix input' tables' options' chain' source').mem ht)
  rw [← readListing_listingText hforms, ← readListing_listingText hforms', h]

/-- A string whose second line looks like an entry, and two texts that differ in their blanks. -/
theorem listing_determines_tokens_of_string :
    let cropped : Options := { wordLimit := 1 }
    let report := scanInput ⟨"\"\\\n<id, x>\" y".toList, none⟩ .standard {} [] "a.c"
    let report' := scanInput ⟨"\"\\\n<id, x>\"\ny".toList, none⟩ .standard cropped [] "b.c"
    (listingText report.tokens = "<string, \"\\\n<id, x>\">\n<id, y>\n" ∧
        listingText report'.tokens = listingText report.tokens) ∧
      report.tokens.map (fun t => (t.kind, t.text)) =
        report'.tokens.map fun t => (t.kind, t.text) := by
  intro cropped report report'
  have hlisting : listingText report.tokens = "<string, \"\\\n<id, x>\">\n<id, y>\n" ∧
      listingText report'.tokens = listingText report.tokens := by decide +kernel
  exact ⟨hlisting, listing_determines_tokens _ _ _ _ _ _ _ _ _ _ hlisting.2.symm⟩

end Command

end CLexer
