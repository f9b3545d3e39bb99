import CLexer.Proofs.Delivery
import CLexer.Proofs.Turns

/-!
# Scans come to their end

Three things could stop a scanning routine: a character that cannot be given back, a buffer that is
full, and a token without a text. None of them ever does, for any text and any options. What is given
back was just read and is no line feed, and two characters fit the depth of a scanner; a word is never
longer than the buffer may get, and anything else that may be too long is measured first; a token is
made of a lexeme that has its first character. The rules of `Scan.Ends` are where each of these is
used, and `Context.exists_told` is what comes of them.

So the loop goes on to the end of the text. Each of its turns reads a character at least, which bounds
their number.
-/

set_option autoImplicit false

namespace CLexer

/-- There are no more turns than characters. -/
theorem Context.Told.length_le {before : List Char} {ctx : Context} {turns : List Turn}
    (told : ctx.Told before turns) : turns.length ≤ ctx.unread.length := by
  have hcount : ∀ ts : List Turn, (∀ t ∈ ts, t.Obeys ctx.tables ctx.options) →
      ts.length ≤ (ts.flatMap (·.segment)).length := by
    intro ts hobeys
    induction ts with
    | nil => exact Nat.le_refl _
    | cons t ts ih =>
      obtain ⟨c, rest, htakes⟩ := hobeys t List.mem_cons_self
      have hrest := ih fun t' ht' => hobeys t' (List.mem_cons_of_mem t ht')
      rw [List.flatMap_cons, List.length_append, htakes.segment, List.length_cons,
        List.length_cons]
      omega
  rw [← told.segments]
  exact hcount turns told.obeys

/-- **A scan comes to the end of its text and nothing stops it.** If every sink can take what it
admits, the report has no failure and all the events of the scan. The scan itself has no fault, it has
read everything and seen the end, and its loop got there in turns of which each went well, no more of
them than there are characters. -/
theorem scanInput_completes {chain : Chain} (htakes : Chain.Takes chain) (chars : List Char)
    (tables : Tables) (options : Options) (source : String) :
    let ctx := Context.ofText chars tables options source
    let report := scanInput ⟨chars, none⟩ tables options chain source
    report.failure = none ∧ report.events = ctx.scan.events ∧
      ctx.scan.fault = none ∧ ctx.scan.context.unread = [] ∧
      ctx.scan.context.cursor.ended = true ∧
      ∃ turns, Context.Turns [] ctx turns ctx.scan.context ∧ turns.length ≤ chars.length := by
  intro ctx report
  obtain ⟨turns, told⟩ := Context.exists_told_ofText chars tables options source
  have hfault : ctx.scan.fault = none := told.fault
  have hreport : report = ⟨ctx.scan.events, (deliver chain ctx.scan.events).chain, none⟩ :=
    scanInput_of_takes htakes hfault
  refine ⟨by rw [hreport], by rw [hreport], hfault, told.unread, told.ended, turns, told.loop, ?_⟩
  exact told.length_le

theorem scanInput_completes_on_dots :
    Chain.Takes [.collector false, ⟨.logger, true, #[]⟩] ∧
      let ctx := Context.ofText ['.', '.', 'x', '\n', '.', '.'] .standard {} "dots"
      let report := scanInput ⟨['.', '.', 'x', '\n', '.', '.'], none⟩ .standard {}
        [.collector false, ⟨.logger, true, #[]⟩] "dots"
      report.failure = none ∧ report.events = ctx.scan.events ∧
        ctx.scan.fault = none ∧ ctx.scan.context.unread = [] ∧
        ctx.scan.context.cursor.ended = true ∧
        ∃ turns, Context.Turns [] ctx turns ctx.scan.context ∧ turns.length ≤ 6 := by
  have htakes : Chain.Takes [.collector false, ⟨.logger, true, #[]⟩] := by
    unfold Chain.Takes
    decide
  exact ⟨htakes, scanInput_completes htakes ['.', '.', 'x', '\n', '.', '.'] .standard {} "dots"⟩

end CLexer
