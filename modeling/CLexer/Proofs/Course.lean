import CLexer.Proofs.Delivery
import CLexer.Proofs.Turns

/-!
# The course of a scan

The turns of a scan are told by the text alone: each takes the piece at the front of what is left,
and the next one goes on behind it. `turnsOf` says so as a function, and `outputOf` what comes of
it, so that two scans can be compared by comparing their texts, without a context, a step or an
event in sight. That the loop of a scanner takes these turns and no others is proved here
(`Told.eq_turnsOf`), and with it what comes out at the other end of a scan, the tokens of a report
and what a collector keeps (`scanInput_collector`).
-/

set_option autoImplicit false

namespace CLexer

open Event CLexer.Text

/-- The turn that takes the piece off the front of a text that stands behind `before`. -/
def Turn.first (tables : Tables) (options : Options) (before : List Char) (c : Char)
    (rest : List Char) : Turn :=
  let p := Piece.of tables options c rest
  { before
    segment := c :: p.more
    behind := rest.drop p.more.length
    tokens := p.tokens (positionAfter before)
    reports := p.diagnostics (positionAfter before) }

/-- The turns that take apart a text that stands behind `before`. -/
def turnsOf (tables : Tables) (options : Options) (before : List Char) : List Char → List Turn
  | [] => []
  | c :: rest =>
      let t := Turn.first tables options before c rest
      t :: turnsOf tables options (before ++ t.segment) t.behind
termination_by text => text.length
decreasing_by
  simp only [Turn.first, List.length_drop, List.length_cons]
  omega

variable {tables : Tables} {options : Options} {before : List Char}

@[simp] theorem turnsOf_nil : turnsOf tables options before [] = [] := by rw [turnsOf]

theorem turnsOf_cons (c : Char) (rest : List Char) :
    turnsOf tables options before (c :: rest) =
      Turn.first tables options before c rest ::
        turnsOf tables options (before ++ c :: (Piece.of tables options c rest).more)
          (rest.drop (Piece.of tables options c rest).more.length) := by
  rw [turnsOf]
  rfl

/-- What the turns of a text that stands behind `before` hand out and say. -/
def outputOf (tables : Tables) (options : Options) (before text : List Char) :
    List Token × List Diagnostic :=
  ((turnsOf tables options before text).flatMap (·.tokens),
    (turnsOf tables options before text).flatMap (·.reports))

theorem outputOf_nil (before : List Char) : outputOf tables options before [] = ([], []) := by
  simp [outputOf]

theorem outputOf_cons (before : List Char) (c : Char) (rest : List Char) :
    let p := Piece.of tables options c rest
    let next := outputOf tables options (before ++ c :: p.more) (rest.drop p.more.length)
    let start := positionAfter before
    outputOf tables options before (c :: rest) =
      (p.tokens start ++ next.1, p.diagnostics start ++ next.2) := by
  intro p next start
  simp only [outputOf, turnsOf_cons, List.flatMap_cons]
  rfl

/-- Induction along the pieces of a text. -/
@[elab_as_elim]
theorem pieces_induction (tables : Tables) (options : Options)
    {motive : List Char → List Char → Prop} (nil : ∀ before, motive before [])
    (cons : ∀ before c rest,
      motive (before ++ c :: (Piece.of tables options c rest).more)
        (rest.drop (Piece.of tables options c rest).more.length) →
      motive before (c :: rest))
    (before text : List Char) : motive before text :=
  turnsOf.induct tables options motive nil cons before text

theorem outputOf_blanks {w : List Char} (hw : ∀ c ∈ w, isBlank c = true) (before rest : List Char) :
    outputOf tables options before (w ++ rest) = outputOf tables options (before ++ w) rest := by
  induction w generalizing before with
  | nil => rw [List.nil_append, List.append_nil]
  | cons b w ih =>
    have hpiece : Piece.of tables options b (w ++ rest) = {} := if_pos (hw b List.mem_cons_self)
    have hnext := ih (fun c hc => hw c (List.mem_cons_of_mem b hc)) (before ++ [b])
    rw [List.append_assoc, List.singleton_append] at hnext
    rw [List.cons_append, outputOf_cons, hpiece]
    exact hnext

theorem outputOf_feed (before rest : List Char) :
    outputOf tables options before ('\n' :: rest) =
      outputOf tables options (before ++ ['\n']) rest := by
  refine outputOf_blanks (w := ['\n']) (fun c hc => ?_) before rest
  rw [List.mem_singleton.mp hc]
  rfl

/-! ## The loop takes these turns -/

theorem Turn.Takes.eq_first {t : Turn} {c : Char} {rest : List Char}
    (h : t.Takes c rest (Piece.of tables options c rest)) :
    t = Turn.first tables options t.before c rest := by
  cases t
  unfold Turn.first
  dsimp only
  rw [← h.behind, ← h.segment, ← h.tokens, ← h.reports]

/-- Turns that follow each other, that obey the rules and that read the whole text are those that
the text tells. -/
theorem Context.Turns.eq_turnsOf {ctx last : Context} {turns : List Turn}
    (h : Context.Turns before ctx turns last) (hobeys : ∀ t ∈ turns, t.Obeys tables options)
    (hall : turns.flatMap (·.segment) = ctx.unread) :
    turns = turnsOf tables options before ctx.unread := by
  induction h with
  | done =>
    rw [← hall]
    exact turnsOf_nil.symm
  | @turn before segment ctx ctx' last es y turns hstep hread hturns ih =>
    have hrest : turns.flatMap (·.segment) = ctx'.unread := by
      rw [List.flatMap_cons, hread] at hall
      exact List.append_cancel_left hall
    have hmore := ih (fun t ht => hobeys t (List.mem_cons_of_mem _ ht)) hrest
    obtain ⟨c, rest, htakes⟩ := hobeys _ List.mem_cons_self
    have htext : ctx.unread = c :: rest := hread.trans htakes.text
    have hsegment : segment = c :: (Piece.of tables options c rest).more := htakes.segment
    have hfirst := htakes.eq_first
    have hbehind : ctx'.unread = rest.drop (Piece.of tables options c rest).more.length :=
      congrArg Turn.behind hfirst
    rw [htext, turnsOf_cons, ← hsegment, ← hbehind, ← hmore, hfirst]

theorem Context.Told.eq_turnsOf {ctx : Context} {turns : List Turn} (told : ctx.Told before turns) :
    turns = turnsOf ctx.tables ctx.options before ctx.unread :=
  told.loop.eq_turnsOf told.obeys told.segments

/-! ## What comes out of a scan -/

/-- The tokens and the diagnostics of a scan are those that its text tells. -/
theorem events_scan (text : List Char) (tables : Tables) (options : Options) (source : String) :
    let events := (Context.ofText text tables options source).scan.events
    (tokens events, reports events) = outputOf tables options [] text := by
  intro events
  obtain ⟨turns, told⟩ := Context.exists_told_ofText text tables options source
  obtain ⟨htokens, hreports⟩ := (Context.ofText text tables options source).scan_eq
  have hturns : turns = turnsOf tables options [] text := told.eq_turnsOf
  rw [outputOf, ← hturns]
  exact Prod.ext (htokens.trans told.tokens) (hreports.trans told.reports)

/-- Whatever the sinks and however an input breaks off, the tokens of a report are a start of those.
-/
theorem tokens_isPrefix (input : Input) (tables : Tables) (options : Options) (chain : Chain)
    (source : String) :
    (scanInput input tables options chain source).tokens <+:
      (outputOf tables options [] input.chars).1 := by
  rw [← events_scan input.chars tables options source]
  exact (scanInput_events_isPrefix input tables options chain source).filterMap token?

/-- What the sinks of a report have taken, one sink after the other. -/
def Report.kept (r : Report) : List Diagnostic := r.chain.flatMap (·.diagnostics)

/-- A scan is not stopped by sinks that take what they admit. -/
theorem scanInput_to_takers {chain : Chain} (h : chain.Takes) (text : List Char) (tables : Tables)
    (options : Options) (source : String) :
    let events := (Context.ofText text tables options source).scan.events
    scanInput ⟨text, none⟩ tables options chain source =
      ⟨events, (deliver chain events).chain, none⟩ := by
  obtain ⟨_, told⟩ := Context.exists_told_ofText text tables options source
  exact scanInput_of_takes h told.fault

/-- A scan into a collector is not stopped, and the collector keeps what it admits. -/
theorem scanInput_to_collector (text : List Char) (tables : Tables) (options : Options)
    (verbose : Bool) (source : String) :
    let events := (Context.ofText text tables options source).scan.events
    scanInput ⟨text, none⟩ tables options [.collector verbose] source =
      ⟨events, [⟨.collector, verbose,
        ((reports events).filter (Sink.collector verbose).admits).toArray⟩], none⟩ := by
  intro events
  have htakes : Chain.Takes [.collector verbose] := by simp [Chain.Takes, Sink.collector]
  have hchain := deliver_to_collector verbose #[] events
  rw [Array.empty_append] at hchain
  exact (scanInput_to_takers htakes text tables options source).trans
    (congrArg (Report.mk events · none) hchain)

/-- Such a scan hands out all of its tokens, and keeps of its diagnostics what is admitted. -/
theorem scanInput_collector (text : List Char) (tables : Tables) (options : Options)
    (verbose : Bool) (source : String) :
    let out := outputOf tables options [] text
    let report := scanInput ⟨text, none⟩ tables options [.collector verbose] source
    report.failure = none ∧ report.tokens = out.1 ∧
      report.kept = out.2.filter (Sink.collector verbose).admits := by
  intro out report
  obtain ⟨htokens, hreports⟩ := Prod.mk.inj (events_scan text tables options source)
  have hreport := scanInput_to_collector text tables options verbose source
  refine ⟨congrArg Report.failure hreport, (congrArg Report.tokens hreport).trans htokens, ?_⟩
  rw [show report = _ from hreport, Report.kept, hreports]
  simp [Sink.diagnostics, out, outputOf]

end CLexer
