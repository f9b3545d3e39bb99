import CLexer.Proofs.Turns

/-!
# Comments, as a step of the scanner

A slash that is an operator starts a comment if a second slash or a star stands behind it. One step of
the scanner then passes over all of the comment and makes no token of it. How far that goes is said
here without the recogniser: up to the first line feed and with it, or up to the first closing, and in
either case to the end of the text if there is none. A closing is looked for behind the star of the
opening, so that the star does not close the comment that it opens.

`PassesOver` says all that such a step does, and where the next one goes on: behind the comment, with
the position that counting in the text gives to the character there.
-/

set_option autoImplicit false

namespace CLexer

open CLexer.Text CLexer.Lexeme Event

/-! ## The first closing -/

namespace Lexeme

/-- The text goes through its first `*/` in front of `rest`, and `body` is what stands before that. -/
structure FirstClosing (text body rest : List Char) : Prop where
  split : text = body ++ '*' :: '/' :: rest
  first : ¬ ['*', '/'] <:+: body ++ ['*']

variable {text body body' rest rest' : List Char}

theorem FirstClosing.closing_isPrefix (h : FirstClosing text body rest) :
    body ++ ['*', '/'] <+: text := ⟨rest, by rw [h.split]; simp⟩

theorem FirstClosing.length_le (h : FirstClosing text body rest)
    (h' : FirstClosing text body' rest') : body.length ≤ body'.length := by
  by_contra hlt
  have hstar : body ++ ['*'] <+: text := ⟨'/' :: rest, by rw [h.split]; simp⟩
  -- A closing further to the front would be inside the body.
  have hinside : body' ++ ['*', '/'] <+: body ++ ['*'] :=
    List.prefix_of_prefix_length_le h'.closing_isPrefix hstar (by simp; omega)
  obtain ⟨behind, hbehind⟩ := hinside
  exact h.first ⟨body', behind, hbehind⟩

/-- There is one first closing at most. -/
theorem FirstClosing.unique (h : FirstClosing text body rest) (h' : FirstClosing text body' rest') :
    body' = body ∧ rest' = rest := by
  have hlength := Nat.le_antisymm (h'.length_le h) (h.length_le h')
  obtain ⟨hbody, hbehind⟩ := List.append_inj (h'.split.symm.trans h.split) hlength
  exact ⟨hbody, by simpa using hbehind⟩

theorem firstClosing_of_blockWidth? {width : Nat} (h : blockWidth? text = some width) :
    ∃ body, text.take width = body ++ ['*', '/'] ∧ FirstClosing text body (text.drop width) := by
  obtain ⟨body, htake, hfirst⟩ := take_of_blockWidth?_eq_some h
  refine ⟨body, htake, ?_, hfirst⟩
  have hsplit := List.take_append_drop width text
  rw [htake, List.append_assoc] at hsplit
  exact hsplit.symm

theorem exists_firstClosing (h : ['*', '/'] <:+: text) : ∃ body rest, FirstClosing text body rest := by
  cases hwidth : blockWidth? text with
  | none => exact absurd h (not_infix_of_blockWidth?_eq_none hwidth)
  | some width =>
    obtain ⟨body, -, hclosing⟩ := firstClosing_of_blockWidth? hwidth
    exact ⟨body, _, hclosing⟩

theorem blockWidth?_eq_none (h : ¬ ['*', '/'] <:+: text) : blockWidth? text = none := by
  cases hwidth : blockWidth? text with
  | none => rfl
  | some width =>
    obtain ⟨body, -, hclosing⟩ := firstClosing_of_blockWidth? hwidth
    exact absurd ((List.suffix_append body _).isInfix.trans hclosing.closing_isPrefix.isInfix) h

theorem FirstClosing.exists_width (h : FirstClosing text body rest) :
    ∃ width, blockWidth? text = some width ∧ text.take width = body ++ ['*', '/'] := by
  cases hwidth : blockWidth? text with
  | none =>
    refine absurd ⟨body, rest, ?_⟩ (not_infix_of_blockWidth?_eq_none hwidth)
    rw [h.split, List.append_assoc]
    rfl
  | some width =>
    obtain ⟨body', htake, hclosing⟩ := firstClosing_of_blockWidth? hwidth
    rw [(h.unique hclosing).1] at htake
    exact ⟨width, rfl, htake⟩

theorem lineRest_append {line : List Char} (hline : '\n' ∉ line) (hrest : ∀ c ∈ rest.head?, c = '\n') :
    lineRest (line ++ rest) = line := by
  unfold lineRest
  rw [takeWhile_append_stop fun c hc => by simpa using hrest c hc, List.takeWhile_eq_self_iff]
  intro c hc
  have hne : c ≠ '\n' := ne_of_mem_of_not_mem hc hline
  simpa using hne

end Lexeme

/-! ## The piece of a comment -/

namespace Piece

variable {tables : Tables} {options : Options} {body line rest : List Char}

/-- A slash starts a comment whatever stands behind its second character. -/
theorem of_comment (hslash : '/' ∈ tables.operators) {d : Char} (hd : d = '/' ∨ d = '*')
    (rest : List Char) : of tables options '/' (d :: rest) = comment d rest := by
  have hoperator : tables.isOperator '/' = true := List.contains_iff_mem.mpr hslash
  show punctuation tables options '/' (d :: rest) = _
  unfold punctuation
  rw [if_pos hoperator]
  exact if_pos ⟨rfl, hd⟩

theorem comment_slash (text : List Char) :
    comment '/' text =
      { more := '/' :: text.take ((lineRest text).length + 1)
        remarks := [⟨.debug, "single line comment starts"⟩] } := rfl

theorem comment_line (hline : '\n' ∉ line) (rest : List Char) :
    comment '/' (line ++ '\n' :: rest) =
      { more := '/' :: (line ++ ['\n']), remarks := [⟨.debug, "single line comment starts"⟩] } := by
  rw [comment_slash, lineRest_append hline (by simp), List.take_length_add_append]
  rfl

theorem comment_lastLine (hline : '\n' ∉ line) :
    comment '/' line =
      { more := '/' :: line, remarks := [⟨.debug, "single line comment starts"⟩] } := by
  have hall : lineRest (line ++ []) = line := lineRest_append hline (by simp)
  rw [List.append_nil] at hall
  rw [comment_slash, hall, List.take_of_length_le (Nat.le_succ _)]

theorem comment_closed {text : List Char} (h : FirstClosing text body rest) :
    comment '*' text =
      { more := '*' :: (body ++ ['*', '/']), remarks := [⟨.debug, "multi-line comment starts"⟩] } := by
  obtain ⟨width, hwidth, htake⟩ := h.exists_width
  unfold comment
  rw [show CommentStyle.ofChar '*' = .block by decide, hwidth]
  dsimp only
  rw [htake]

theorem comment_unclosed {text : List Char} (h : ¬ ['*', '/'] <:+: text) :
    comment '*' text =
      { more := '*' :: text
        remarks := [⟨.debug, "multi-line comment starts"⟩, ⟨.error, "unterminated comment"⟩] } := by
  unfold comment
  rw [show CommentStyle.ofChar '*' = .block by decide, blockWidth?_eq_none h]

end Piece

/-! ## The step -/

namespace Context

variable {ctx : Context} {before : List Char}

/-- A step of a scan can start from the context, and `before` is all that was read up to here. -/
structure StandsBehind (ctx : Context) (before : List Char) : Prop where
  ready : ctx.Ready
  place : ctx.cursor.place = ({} : Place).steps before

theorem standsBehind_ofText (text : List Char) (tables : Tables) (options : Options)
    (source : String) : (ofText text tables options source).StandsBehind [] :=
  ⟨ready_ofText text tables options source, rfl⟩

/-- The next character gets the position that counting gives it. -/
theorem StandsBehind.position_next (h : ctx.StandsBehind before) {c : Char} {rest : List Char}
    (hu : ctx.unread = c :: rest) : ctx.cursor.next.2.position = positionAfter before := by
  rw [Cursor.next_of_cons hu, Cursor.position, h.place]
  exact position_step_steps before c

/-- One step reads `taken` and makes no token of it. What it reports is `ds`, and the next step goes on
in front of `rest`, at the true position of the character there. -/
structure PassesOver (ctx : Context) (before taken rest : List Char) (ds : List Diagnostic)
    (ctx' : Context) : Prop where
  step : ∃ es, Scan.step ctx = ⟨ctx', es, .ok (some .nothing)⟩ ∧ tokens es = [] ∧ reports es = ds
  stands : ctx'.StandsBehind (before ++ taken)
  unread : ctx'.unread = rest
  position : ∀ c more, rest = c :: more →
    ctx'.cursor.next.2.position = positionAfter (before ++ taken)
  tables : ctx'.tables = ctx.tables
  options : ctx'.options = ctx.options

/-- A piece without a token is passed over. -/
theorem StandsBehind.exists_passesOver (h : ctx.StandsBehind before) {c : Char}
    {more rest : List Char} {remarks : List Remark} (hu : ctx.unread = c :: (more ++ rest))
    (hp : Piece.of ctx.tables ctx.options c (more ++ rest) = { more, remarks }) :
    ∃ ctx', ctx.PassesOver before (c :: more) rest
      (remarks.map (·.diagnostic (positionAfter before))) ctx' := by
  obtain ⟨ctx', es, y, hstep, hpasses, hview, hreports, htokens⟩ := exists_step h.ready hu
  rw [hp] at hpasses hview hreports
  rw [h.place, position_step_steps] at hreports
  have hnothing : y = .nothing := by
    cases y with
    | nothing => rfl
    | token t => cases hview
    | dotPair t => cases hview
  subst hnothing
  have hrest : ctx'.unread = rest := by
    have hread : ctx.unread = c :: more ++ ctx'.unread := hpasses.reads.ahead
    rw [hu, List.cons_append] at hread
    exact (List.append_cancel_left (List.cons.inj hread).2).symm
  have hstands : ctx'.StandsBehind (before ++ c :: more) := by
    refine ⟨hpasses.ready, ?_⟩
    rw [hpasses.reads.place, h.place, Place.steps_append]
  exact ⟨ctx',
    { step := ⟨es, hstep, htokens, hreports⟩
      stands := hstands
      unread := hrest
      position := fun d behind hd => hstands.position_next (hrest.trans hd)
      tables := hpasses.tables
      options := hpasses.options }⟩

theorem StandsBehind.exists_passesOver_comment (h : ctx.StandsBehind before)
    (hslash : '/' ∈ ctx.tables.operators) {d : Char} (hd : d = '/' ∨ d = '*')
    {inside more rest : List Char} {remarks : List Remark}
    (hu : ctx.unread = '/' :: d :: inside) (hinside : inside = more ++ rest)
    (hp : Piece.comment d inside = { more := d :: more, remarks }) :
    ∃ ctx', ctx.PassesOver before ('/' :: d :: more) rest
      (remarks.map (·.diagnostic (positionAfter before))) ctx' := by
  have hpiece : Piece.of ctx.tables ctx.options '/' (d :: inside) = { more := d :: more, remarks } :=
    (Piece.of_comment hslash hd inside).trans hp
  rw [hinside] at hu hpiece
  exact h.exists_passesOver hu hpiece

/-- **A comment ends where it should, and makes no token.** A step starts at a slash that is an
operator. Behind a star it passes over everything through the first closing there is, or over the whole
text, and reports at the slash that the comment is open. Behind a second slash it passes over the rest
of the line. -/
theorem comment_passed_over (h : ctx.StandsBehind before) (hslash : '/' ∈ ctx.tables.operators) :
    (∀ inside, ctx.unread = '/' :: '*' :: inside →
      (['*', '/'] <:+: inside → ∃ body rest, FirstClosing inside body rest ∧
        ∃ ctx', ctx.PassesOver before ('/' :: '*' :: (body ++ ['*', '/'])) rest
          [⟨.debug, positionAfter before, "multi-line comment starts"⟩] ctx') ∧
      (¬ ['*', '/'] <:+: inside →
        ∃ ctx', ctx.PassesOver before ('/' :: '*' :: inside) []
          [⟨.debug, positionAfter before, "multi-line comment starts"⟩,
            ⟨.error, positionAfter before, "unterminated comment"⟩] ctx')) ∧
    ∀ inside, ctx.unread = '/' :: '/' :: inside →
      (∀ line rest, inside = line ++ '\n' :: rest → '\n' ∉ line →
        ∃ ctx', ctx.PassesOver before ('/' :: '/' :: (line ++ ['\n'])) rest
          [⟨.debug, positionAfter before, "single line comment starts"⟩] ctx') ∧
      ('\n' ∉ inside →
        ∃ ctx', ctx.PassesOver before ('/' :: '/' :: inside) []
          [⟨.debug, positionAfter before, "single line comment starts"⟩] ctx') := by
  refine ⟨fun inside hu => ⟨fun hinfix => ?_, fun hnone => ?_⟩,
    fun inside hu => ⟨fun line rest hinside hline => ?_, fun hline => ?_⟩⟩
  · obtain ⟨body, rest, hclosing⟩ := exists_firstClosing hinfix
    have hsplit : inside = (body ++ ['*', '/']) ++ rest := by
      rw [hclosing.split, List.append_assoc]
      rfl
    exact ⟨body, rest, hclosing,
      h.exists_passesOver_comment hslash (.inr rfl) hu hsplit (Piece.comment_closed hclosing)⟩
  · exact h.exists_passesOver_comment hslash (.inr rfl) hu (List.append_nil inside).symm
      (Piece.comment_unclosed hnone)
  · have hsplit : inside = (line ++ ['\n']) ++ rest := by
      rw [hinside, List.append_assoc]
      rfl
    have hpiece := Piece.comment_line hline rest
    rw [← hinside] at hpiece
    exact h.exists_passesOver_comment hslash (.inl rfl) hu hsplit hpiece
  · exact h.exists_passesOver_comment hslash (.inl rfl) hu (List.append_nil inside).symm
      (Piece.comment_lastLine hline)

/-- Stars in front of the closing slash do not matter, but the star of the opening does not close. -/
theorem comment_passed_over_behind_stars :
    let closed := ofText "/*\n***/b".toList .standard {}
    let unclosed := ofText "/*/".toList .standard {}
    ((closed.StandsBehind [] ∧ unclosed.StandsBehind []) ∧ '/' ∈ Tables.standard.operators) ∧
      (∃ ctx', closed.PassesOver [] "/*\n***/".toList ['b']
        [⟨.debug, ⟨1, 1⟩, "multi-line comment starts"⟩] ctx' ∧
        ctx'.cursor.next.2.position = ⟨2, 5⟩) ∧
      ∃ ctx', unclosed.PassesOver [] "/*/".toList []
        [⟨.debug, ⟨1, 1⟩, "multi-line comment starts"⟩,
          ⟨.error, ⟨1, 1⟩, "unterminated comment"⟩] ctx' := by
  intro closed unclosed
  have hclosed : closed.StandsBehind [] := standsBehind_ofText _ _ _ _
  have hunclosed : unclosed.StandsBehind [] := standsBehind_ofText _ _ _ _
  have hslash : '/' ∈ Tables.standard.operators := by decide
  have hstars : closed.unread = '/' :: '*' :: "\n***/b".toList := by decide
  have hnone : unclosed.unread = '/' :: '*' :: ['/'] := by decide
  refine ⟨⟨⟨hclosed, hunclosed⟩, hslash⟩, ?_, ?_⟩
  · have hknown : FirstClosing "\n***/b".toList "\n**".toList ['b'] := ⟨by decide, by decide⟩
    obtain ⟨body, rest, hclosing, ctx', hpasses⟩ :=
      ((comment_passed_over hclosed hslash).1 _ hstars).1 (by decide)
    obtain ⟨rfl, rfl⟩ := hknown.unique hclosing
    exact ⟨ctx', hpasses, hpasses.position 'b' [] rfl⟩
  · exact ((comment_passed_over hunclosed hslash).1 _ hnone).2 (by decide)

end Context

end CLexer
