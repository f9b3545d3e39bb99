import CLexer.Proofs.Delivery
import CLexer.Proofs.Turns

/-!
# What becomes of each turn

No character of a text is lost without a trace, and none is scanned twice. The turns of a scan cut the
text up, and each of them has one of four outcomes: a blank is passed over, a token is handed out, a
lexeme is rejected, or a comment is skipped. A turn that hands out a token holds the text of it, and
what it holds beyond that is told exactly: the part of a word that is not kept, and a line feed that
was looked at.

The outcomes are said of turns, in terms of what anyone can see of them, and the pieces are only the
way there. There is a lemma for each way a piece can start, and the three at the front say what has to
be checked for it.
-/

set_option autoImplicit false

namespace CLexer

open CLexer.Text

namespace Turn

/-! ## Outcomes -/

structure Blank (t : Turn) : Prop where
  segment : ∃ c, t.segment = [c] ∧ isBlank c = true
  tokens : t.tokens = []
  reports : t.reports = []

/-- The turn starts with a character that is no blank. -/
def Starts (t : Turn) : Prop := ∃ c more, t.segment = c :: more ∧ isBlank c = false

/-- The characters are the part of a word, or of the name of a directive, that is not kept because
the part in front of it is as long as a word may be. -/
inductive Dropped (options : Options) (t : Turn) : List Char → Prop
  | nothing : Dropped options t []
  | word {token : Token} {dropped : List Char} (htokens : t.tokens = [token])
      (hlimit : token.text.length = options.wordLimit)
      (hstart : ∃ c more, t.segment = c :: more ∧ isWordStart c = true)
      (hword : token.text.toList ++ dropped = Lexeme.word (t.segment ++ t.behind)) :
      Dropped options t dropped
  | directive {token : Token} {dropped : List Char} (htokens : t.tokens = [token])
      (hlimit : token.text.length = options.wordLimit) (hkind : token.kind = .directive)
      (hname : token.text.toList ++ dropped =
        '#' :: Lexeme.letters (t.segment ++ t.behind).tail) :
      Dropped options t dropped

/-- The turn hands out a token, or two dots. -/
structure Emits (options : Options) (t : Turn) : Prop where
  starts : t.Starts
  tokens : (∃ token, t.tokens = [token]) ∨
    ∃ first second, t.tokens = [first, second] ∧ first.text = "." ∧ second.text = "."
  reports : t.reports = [] ∨
    options.keepMultichar = true ∧ ∃ token d, t.tokens = [token] ∧ token.kind = .charConstant ∧
      t.reports = [d] ∧ d.severity = .warning ∧ d.message = "multi-character character constant"
  segment : ∃ dropped feed, t.segment = t.tokens.flatMap (·.text.toList) ++ dropped ++ feed ∧
    t.Dropped options dropped ∧ (feed = [] ∨ feed = ['\n'])

/-- The turn rejects what it reads. -/
structure Rejects (t : Turn) : Prop where
  starts : t.Starts
  tokens : t.tokens = []
  reports : ∃ d, t.reports = [d] ∧ d.severity ≠ .debug

/-- The turn is a comment up to the end of its line. -/
def LineComment (t : Turn) : Prop :=
  ∃ body, '\n' ∉ body ∧ (t.segment = '/' :: '/' :: (body ++ ['\n']) ∨
    t.segment = '/' :: '/' :: body ∧ t.behind = [])

/-- The turn is a comment up to the first `*/`. -/
def ClosedComment (t : Turn) : Prop :=
  ∃ body, t.segment = '/' :: '*' :: (body ++ ['*', '/']) ∧ ¬ ['*', '/'] <:+: body ++ ['*']

/-- The turn is a comment that should go up to a `*/`, and goes on to the end of the text because
there is none. -/
def OpenComment (t : Turn) : Prop :=
  ∃ body, t.segment = '/' :: '*' :: body ∧ ¬ ['*', '/'] <:+: body ∧ t.behind = []

/-- The turn skips a comment. There is a notice on it, and a complaint if it is open. -/
structure Skips (t : Turn) : Prop where
  comment : t.LineComment ∨ t.ClosedComment ∨ t.OpenComment
  tokens : t.tokens = []
  reports : ∃ notice, notice.severity = .debug ∧ (¬ t.OpenComment → t.reports = [notice]) ∧
    (t.OpenComment → ∃ complaint, complaint.severity = .error ∧
      complaint.message = "unterminated comment" ∧ t.reports = [notice, complaint])

/-- The ways a turn can come out. -/
inductive Outcome where
  | blank
  | emitted
  | rejected
  | comment
deriving DecidableEq

def Has (options : Options) (t : Turn) : Outcome → Prop
  | .blank => t.Blank
  | .emitted => t.Emits options
  | .rejected => t.Rejects
  | .comment => t.Skips

variable {tables : Tables} {options : Options} {t : Turn} {c : Char} {rest : List Char} {p : Piece}

/-! ## From pieces to outcomes -/

theorem Takes.starts (h : t.Takes c rest p) (hc : isBlank c = false) : t.Starts :=
  ⟨c, p.more, h.segment, hc⟩

@[simp] theorem toList_token (k : Cut) (start : Position) :
    (k.token start).text.toList = k.chars := String.toList_ofList

theorem length_token (k : Cut) (start : Position) :
    (k.token start).text.length = k.chars.length := by
  rw [← String.length_toList, toList_token]

/-- The remarks that may be made on a token. -/
def Tolerated (options : Options) (k : Cut) (remarks : List Remark) : Prop :=
  remarks = [] ∨ options.keepMultichar = true ∧ k.kind = .charConstant ∧
    remarks = [⟨.warning, "multi-character character constant"⟩]

/-- A piece with one cut at its front hands out a token. -/
theorem Takes.emits {k : Cut} (h : t.Takes c rest p) (hc : isBlank c = false)
    (dropped feed : List Char) (hcuts : p.cuts = [k]) (hremarks : Tolerated options k p.remarks)
    (hsegment : c :: p.more = k.chars ++ dropped ++ feed) (hdropped : t.Dropped options dropped)
    (hfeed : feed = [] ∨ feed = ['\n']) : t.Emits options := by
  have htokens : t.tokens = [k.token (positionAfter t.before)] := by
    rw [h.tokens, Piece.tokens, hcuts]
    rfl
  have hreports : t.reports = p.remarks.map (·.diagnostic (positionAfter t.before)) := h.reports
  refine ⟨h.starts hc, .inl ⟨_, htokens⟩, ?_, dropped, feed, ?_, hdropped, hfeed⟩
  · rcases hremarks with hnone | ⟨hkeep, hkind, hwarning⟩
    · rw [hreports, hnone]
      exact .inl rfl
    · rw [hwarning] at hreports
      exact .inr ⟨hkeep, _, _, htokens, hkind, hreports, rfl, rfl⟩
  · rw [h.segment, hsegment, htokens]
    simp

/-- A piece that is its only cut hands out a token, and there is nothing behind it. -/
theorem Takes.emits_all {k : Cut} (h : t.Takes c rest p) (hc : isBlank c = false)
    (hcuts : p.cuts = [k]) (hremarks : Tolerated options k p.remarks)
    (hsegment : c :: p.more = k.chars) : t.Emits options :=
  h.emits hc [] [] hcuts hremarks (by rw [hsegment, List.append_nil, List.append_nil]) .nothing
    (.inl rfl)

theorem glanced_cases (text : List Char) :
    Piece.glanced text = [] ∨ Piece.glanced text = ['\n'] := by
  unfold Piece.glanced
  split
  · exact .inr rfl
  · exact .inl rfl

/-- Behind a lexeme that is kept as it stands only a look at what follows is taken. -/
theorem Takes.emits_lexeme {kind : TokenKind} {more behind : List Char}
    (h : t.Takes c rest
      { more := more ++ Piece.glanced behind, cuts := [⟨kind, c, more⟩] })
    (hc : isBlank c = false) : t.Emits options := by
  refine h.emits hc [] _ rfl (.inl rfl) ?_ .nothing (glanced_cases behind)
  rw [List.append_nil]
  rfl

/-- A piece without a cut, on which there is one remark that is no notice, is rejected. -/
theorem Takes.rejects {severity : Severity} {message : String} (h : t.Takes c rest p)
    (hc : isBlank c = false) (hcuts : p.cuts = []) (hremarks : p.remarks = [⟨severity, message⟩])
    (hseverity : severity ≠ .debug) : t.Rejects := by
  refine ⟨h.starts hc, ?_, ⟨severity, positionAfter t.before, message⟩, ?_, hseverity⟩
  · rw [h.tokens, Piece.tokens, hcuts]
    rfl
  · rw [h.reports, Piece.diagnostics, hremarks]
    rfl

/-! ## Words and numbers -/

/-- Of a word only so much is kept as a word may be long. -/
theorem Takes.emits_capped {kind : TokenKind} {whole behind : List Char}
    (h : t.Takes c rest
      { more := whole ++ Piece.glanced behind
        cuts := [⟨kind, c, whole.take (options.wordLimit - 1)⟩] })
    (hc : isBlank c = false)
    (hdropped : ∀ token dropped, t.tokens = [token] → token.kind = kind →
      token.text.length = options.wordLimit → token.text.toList ++ dropped = c :: whole →
      t.Dropped options dropped) : t.Emits options := by
  refine h.emits hc (whole.drop (options.wordLimit - 1)) _ rfl (.inl rfl) ?_ ?_
    (glanced_cases behind)
  · simp [Cut.chars]
  · by_cases hlong : whole.drop (options.wordLimit - 1) = []
    · rw [hlong]
      exact .nothing
    · refine hdropped _ _ h.tokens rfl ?_ ?_
      · -- Something is left behind what is kept, so as much is kept as may be.
        have hpos := options.wordLimit_pos
        have hlt : options.wordLimit - 1 < whole.length := by
          rw [List.drop_eq_nil_iff] at hlong
          omega
        rw [length_token, Cut.chars, List.length_cons, List.length_take]
        omega
      · rw [toList_token, Cut.chars, List.cons_append, List.take_append_drop]

theorem emits_of_word (h : t.Takes c rest (Piece.word tables options c rest))
    (hc : isBlank c = false) (hstart : isWordStart c = true) : t.Emits options := by
  apply h.emits_capped hc
  intro token dropped htokens _ hlimit hword
  refine .word htokens hlimit ⟨c, _, h.segment, hstart⟩ ?_
  rw [h.text, Lexeme.word_cons (isWordChar_of_isWordStart hstart), hword]

theorem outcome_of_number (h : t.Takes c rest (Piece.number options c rest))
    (hc : isBlank c = false) (hdigit : c.isDigit = true) : t.Emits options ∨ t.Rejects := by
  obtain ⟨more, hlexeme, -⟩ := Lexeme.number_eq_cons hdigit rest
  unfold Piece.number at h
  dsimp only at h
  rw [hlexeme] at h
  split at h
  · split at h
    · exact .inl (h.emits_lexeme hc)
    · exact .inr (h.rejects hc rfl rfl (by decide))
  · exact .inr (h.rejects hc rfl rfl (by decide))

/-! ## Literals -/

/-- A literal that is not closed or too long is rejected, and what becomes of any other one is
told by what becomes of a closed one. -/
theorem outcome_of_literal {quote : Char} {closed : List Char → List Cut × List Remark}
    (h : t.Takes quote rest (Piece.literal options quote rest closed)) (hc : isBlank quote = false)
    (hclosed : ∀ inside, t.Takes quote rest
        ⟨inside ++ [quote], (closed inside).1, (closed inside).2⟩ → t.Emits options ∨ t.Rejects) :
    t.Emits options ∨ t.Rejects := by
  unfold Piece.literal at h
  dsimp only at h
  split at h
  · split at h
    · rename_i hend
      rw [Lexeme.take_width_of_closed hend] at h
      exact hclosed _ h
    · exact .inr (h.rejects hc rfl rfl (by decide))
  · exact .inr (h.rejects hc rfl rfl (by decide))

theorem outcome_of_string
    (h : t.Takes doubleQuote rest (Piece.literal options doubleQuote rest Piece.closedString)) :
    t.Emits options ∨ t.Rejects := by
  refine outcome_of_literal h (by decide) fun inside h => .inl ?_
  exact h.emits_all (by decide) rfl (.inl rfl) rfl

theorem outcome_of_char
    (h : t.Takes apostrophe rest
      (Piece.literal options apostrophe rest (Piece.closedChar options))) :
    t.Emits options ∨ t.Rejects := by
  apply outcome_of_literal h (by decide)
  intro inside h
  unfold Piece.closedChar at h
  dsimp only at h
  split at h
  · exact .inr (h.rejects (by decide) rfl rfl (by decide))
  · split at h
    · -- With more than one unit it is remarked on, and kept only if the options want it.
      split at h
      · rename_i hkeep
        exact .inl (h.emits_all (by decide) rfl (.inr ⟨hkeep, rfl, rfl⟩) rfl)
      · exact .inr (h.rejects (by decide) rfl rfl (by decide))
    · exact .inl (h.emits_all (by decide) rfl (.inl rfl) rfl)

/-! ## Punctuation -/

theorem outcome_of_directive
    (h : t.Takes '#' rest (Piece.directive tables options rest)) :
    t.Emits options ∨ t.Rejects := by
  unfold Piece.directive at h
  dsimp only at h
  split at h
  · refine .inl (h.emits_capped (by decide) fun token dropped htokens hkind hlimit hname => ?_)
    refine .directive htokens hlimit hkind ?_
    rw [h.text, hname]
    rfl
  · exact .inr (h.rejects (by decide) rfl rfl (by decide))

theorem Takes.emits_dots {feed : List Char}
    (h : t.Takes '.' rest { more := '.' :: feed, cuts := [.dot, .dot] })
    (hfeed : feed = [] ∨ feed = ['\n']) : t.Emits options where
  starts := h.starts (by decide)
  tokens := .inr ⟨_, _, h.tokens, rfl, rfl⟩
  reports := .inl h.reports
  segment := by
    refine ⟨[], feed, ?_, .nothing, hfeed⟩
    rw [h.segment, h.tokens]
    simp [Piece.tokens, Cut.tokens, Cut.chars, Cut.dot]

theorem emits_of_dots (h : t.Takes '.' rest (Piece.dots rest)) : t.Emits options := by
  unfold Piece.dots at h
  split at h
  · exact h.emits_all (by decide) rfl (.inl rfl) rfl
  · exact h.emits_dots (.inl rfl)
  · exact h.emits_dots (.inr rfl)
  · exact h.emits_all (by decide) rfl (.inl rfl) rfl
  · exact h.emits (by decide) [] _ rfl (.inl rfl) rfl .nothing (glanced_cases rest)

/-! ## Comments -/

theorem not_openComment (h : t.LineComment ∨ t.ClosedComment) : ¬ t.OpenComment := by
  rintro ⟨body, hopen, hnone, -⟩
  rcases h with ⟨line, -, hline | ⟨hline, -⟩⟩ | ⟨inside, hclosed, -⟩
  · rw [hopen] at hline
    simp at hline
  · rw [hopen] at hline
    simp at hline
  · -- Closed, so there is a closing in it, and it is the same comment.
    rw [hopen] at hclosed
    simp only [List.cons.injEq, true_and] at hclosed
    exact hnone ⟨inside, [], by rw [hclosed, List.append_nil]⟩

theorem Takes.skips {message : String} (h : t.Takes c rest p) (hcuts : p.cuts = [])
    (hremarks : p.remarks = [⟨.debug, message⟩]) (hends : t.LineComment ∨ t.ClosedComment) :
    t.Skips where
  comment := hends.elim .inl fun hclosed => .inr (.inl hclosed)
  tokens := by
    rw [h.tokens, Piece.tokens, hcuts]
    rfl
  reports := by
    refine ⟨⟨.debug, positionAfter t.before, message⟩, rfl, fun _ => ?_, fun hopen => ?_⟩
    · rw [h.reports, Piece.diagnostics, hremarks]
      rfl
    · exact absurd hopen (not_openComment hends)

theorem skips_of_line
    (h : t.Takes '/' ('/' :: rest)
      { more := '/' :: rest.take ((Lexeme.lineRest rest).length + 1)
        remarks := [⟨.debug, "single line comment starts"⟩] }) : t.Skips := by
  refine h.skips rfl rfl (.inl ⟨Lexeme.lineRest rest, Lexeme.not_mem_lineRest rest, ?_⟩)
  rw [h.segment, h.behind]
  -- One character more than the rest of the line is read, if there is one, and that is its feed.
  rcases Lexeme.lineRest_cases rest with ⟨behind, hrest⟩ | hrest
  · left
    generalize Lexeme.lineRest rest = line at hrest ⊢
    rw [hrest, List.take_length_add_append]
    rfl
  · right
    generalize Lexeme.lineRest rest = line at hrest ⊢
    rw [hrest, List.take_of_length_le (Nat.le_succ _)]
    simp

theorem skips_of_closed {width : Nat} (hwidth : Lexeme.blockWidth? rest = some width)
    (h : t.Takes '/' ('*' :: rest)
      { more := '*' :: rest.take width
        remarks := [⟨.debug, "multi-line comment starts"⟩] }) : t.Skips := by
  obtain ⟨body, htake, hfirst⟩ := Lexeme.take_of_blockWidth?_eq_some hwidth
  refine h.skips rfl rfl (.inr ⟨body, ?_, hfirst⟩)
  rw [h.segment, htake]

theorem skips_of_open (hnone : Lexeme.blockWidth? rest = none)
    (h : t.Takes '/' ('*' :: rest)
      { more := '*' :: rest
        remarks := [⟨.debug, "multi-line comment starts"⟩, ⟨.error, "unterminated comment"⟩] }) :
    t.Skips := by
  have hopen : t.OpenComment := by
    refine ⟨rest, h.segment, Lexeme.not_infix_of_blockWidth?_eq_none hnone, ?_⟩
    rw [h.behind, List.length_cons, List.drop_succ_cons, List.drop_length]
  exact
    { comment := .inr (.inr hopen)
      tokens := h.tokens
      reports := ⟨_, rfl, fun hclosed => absurd hopen hclosed, fun _ => ⟨_, rfl, rfl, h.reports⟩⟩ }

theorem skips_of_comment {d : Char} (hd : d = '/' ∨ d = '*')
    (h : t.Takes '/' (d :: rest) (Piece.comment d rest)) : t.Skips := by
  rcases hd with rfl | rfl
  · exact skips_of_line h
  · have hstyle : Lexeme.CommentStyle.ofChar '*' = .block := by decide
    unfold Piece.comment at h
    rw [hstyle] at h
    dsimp only at h
    split at h
    · exact skips_of_closed (by assumption) h
    · exact skips_of_open (by assumption) h

/-! ## Any turn -/

theorem outcome_of_operator (hc : isBlank c = false)
    (h : t.Takes c rest (Piece.operator c rest)) : t.Emits options ∨ t.Skips := by
  unfold Piece.operator at h
  split at h
  · split at h
    · rename_i hcomment
      obtain ⟨rfl, hd⟩ := hcomment
      exact .inr (skips_of_comment hd h)
    · exact .inl (h.emits_lexeme hc)
  · exact .inl (h.emits_lexeme hc)

theorem outcome_of_punctuation (hc : isBlank c = false)
    (h : t.Takes c rest (Piece.punctuation tables options c rest)) :
    t.Emits options ∨ t.Rejects ∨ t.Skips := by
  unfold Piece.punctuation at h
  split at h
  · exact (outcome_of_operator hc h).imp_right .inr
  · split at h
    · exact .inl (h.emits_all hc rfl (.inl rfl) rfl)
    · split at h
      · rename_i hhash
        subst hhash
        exact (outcome_of_directive h).imp_right .inl
      · split at h
        · rename_i hdot
          subst hdot
          exact .inl (emits_of_dots h)
        · exact .inl (h.emits_all hc rfl (.inl rfl) rfl)

theorem outcome_of_lexeme (hc : isBlank c = false)
    (h : t.Takes c rest (Piece.lexeme tables options c rest)) :
    t.Emits options ∨ t.Rejects ∨ t.Skips := by
  unfold Piece.lexeme at h
  split at h
  · rename_i hliteral
    split at h
    · rename_i hquote
      subst hquote
      exact (outcome_of_char h).imp_right .inl
    · rename_i hchar
      split at h
      · rename_i hquote
        subst hquote
        exact (outcome_of_string h).imp_right .inl
      · rename_i hstring
        have hdigit : c.isDigit = true := by simpa [isLiteralStart, hchar, hstring] using hliteral
        exact (outcome_of_number h hc hdigit).imp_right .inl
  · split at h
    · exact .inl (emits_of_word h hc (by assumption))
    · split at h
      · exact outcome_of_punctuation hc h
      · exact .inr (.inl (h.rejects hc rfl rfl (by decide)))

theorem Obeys.exists_outcome (h : t.Obeys tables options) : ∃ o, t.Has options o := by
  obtain ⟨c, rest, htakes⟩ := h
  unfold Piece.of at htakes
  split at htakes
  · exact ⟨.blank, ⟨c, htakes.segment, by assumption⟩, htakes.tokens, htakes.reports⟩
  · rename_i hblank
    rcases outcome_of_lexeme (by simpa using hblank) htakes with hemits | hrejects | hskips
    · exact ⟨.emitted, hemits⟩
    · exact ⟨.rejected, hrejects⟩
    · exact ⟨.comment, hskips⟩

/-- The outcome of a turn, as it shows. -/
def verdict (t : Turn) : Outcome :=
  if t.segment.head?.any isBlank then .blank
  else if t.tokens ≠ [] then .emitted
  else if t.reports.head?.any (·.severity = .debug) then .comment
  else .rejected

theorem Starts.head_ne (h : t.Starts) : ¬ t.segment.head?.any isBlank = true := by
  obtain ⟨c, more, hsegment, hc⟩ := h
  simp [hsegment, hc]

/-- A turn has no other outcome than the one that shows. -/
theorem Has.eq_verdict {o : Outcome} (h : t.Has options o) : o = t.verdict := by
  unfold verdict
  cases o with
  | blank =>
    obtain ⟨⟨c, hsegment, hc⟩, -, -⟩ := h
    rw [if_pos (by simp [hsegment, hc])]
  | emitted =>
    obtain ⟨hstarts, htokens, -, -⟩ := h
    have hne : t.tokens ≠ [] := by
      rcases htokens with ⟨token, htoken⟩ | ⟨first, second, hdots, -⟩
      · simp [htoken]
      · simp [hdots]
    rw [if_neg hstarts.head_ne, if_pos hne]
  | rejected =>
    -- Without a token, only the first diagnostic tells a rejection from a comment.
    obtain ⟨hstarts, htokens, d, hreports, hd⟩ := h
    rw [if_neg hstarts.head_ne, if_neg (by simpa using htokens), if_neg (by simp [hreports, hd])]
  | comment =>
    obtain ⟨hcomment, htokens, notice, hnotice, hclosed, hopen⟩ := h
    have hslash : t.segment.head? = some '/' := by
      rcases hcomment with ⟨_, -, hline | ⟨hline, -⟩⟩ | ⟨_, hblock, -⟩ | ⟨_, hblock, -⟩
      · rw [hline]; rfl
      · rw [hline]; rfl
      · rw [hblock]; rfl
      · rw [hblock]; rfl
    have hhead : t.reports.head? = some notice := by
      by_cases h : t.OpenComment
      · obtain ⟨complaint, -, -, hreports⟩ := hopen h
        rw [hreports]
        rfl
      · rw [hclosed h]
        rfl
    rw [if_neg (by rw [hslash]; decide), if_neg (by simpa using htokens),
      if_pos (by simp [hhead, hnotice])]

/-- Every turn that obeys the rules has one outcome. -/
theorem Obeys.existsUnique_outcome (h : t.Obeys tables options) : ∃! o, t.Has options o := by
  obtain ⟨o, ho⟩ := h.exists_outcome
  exact ⟨o, ho, fun o' ho' => ho'.eq_verdict.trans ho.eq_verdict.symm⟩

end Turn

/-! ## The whole text -/

/-- **A scan accounts for its whole text.** The turns of the loop cut the text up, in order, without a
gap and without an overlap. Their tokens are the tokens of the scan, their diagnostics are what a
verbose collector gets to keep, and each of them has one outcome. -/
theorem turns_account_for_text (text : String) (tables : Tables) (options : Options) :
    let ctx := Context.ofText text.toList tables options
    let report := scanText text tables options [.collector true]
    ∃ turns last, Context.Turns [] ctx turns last ∧
      turns.flatMap (·.segment) = text.toList ∧
      report.failure = none ∧
      report.tokens = turns.flatMap (·.tokens) ∧
      report.chain.map (·.diagnostics) = [turns.flatMap (·.reports)] ∧
      ∀ t ∈ turns, t.segment ≠ [] ∧ ∃! outcome, t.Has options outcome := by
  intro ctx report
  obtain ⟨turns, told⟩ := Context.exists_told_ofText text.toList tables options "<input>"
  obtain ⟨htokens, hreports⟩ := ctx.scan_eq
  have htakes : Chain.Takes [.collector true] := by
    intro s hs
    rw [List.mem_singleton.mp hs]
    decide
  have hreport : report = ⟨ctx.scan.events, (deliver [.collector true] ctx.scan.events).chain,
      none⟩ := scanInput_of_takes htakes told.fault
  refine ⟨turns, ctx.drain.context, told.loop, told.segments, ?_, ?_, ?_, fun t ht => ?_⟩
  · rw [hreport]
  · rw [hreport, ← told.tokens]
    exact htokens
  · rw [hreport, Sink.collector, deliver_collector, hreports, told.reports]
    simp [Sink.diagnostics]
  · have hobeys := told.obeys t ht
    refine ⟨?_, hobeys.existsUnique_outcome⟩
    obtain ⟨c, rest, htake⟩ := hobeys
    rw [htake.segment]
    exact List.cons_ne_nil _ _

end CLexer
