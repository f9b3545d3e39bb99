import CLexer.Proofs.Scan.Step
import CLexer.Scanning

/-!
# The turns of a scan

The loop of a scanner is told by its turns: what each read, what it left, the tokens it handed out
and the diagnostics it reported. `Context.Turns` is the loop itself, written down as it goes, and
assumes nothing of the context it starts from.

From a context that is ready and stands where it has read to, the loop always comes to its end, and
every turn obeys the lexical rules (`exists_told`). This is the one induction over the steps, on what
is left to be read. What is proved of a scan afterwards is proved of its turns.
-/

set_option autoImplicit false

namespace CLexer

open Event

/-- One turn of the loop of a scanner. -/
structure Turn where
  /-- All the characters that were read before it. -/
  before : List Char
  /-- The characters it reads. -/
  segment : List Char
  /-- All the characters that it leaves to be read. -/
  behind : List Char
  tokens : List Token
  reports : List Diagnostic
deriving DecidableEq

/-- The turn takes the piece off a text that starts with `c`. -/
structure Turn.Takes (t : Turn) (c : Char) (rest : List Char) (p : Piece) : Prop where
  text : t.segment ++ t.behind = c :: rest
  segment : t.segment = c :: p.more
  tokens : t.tokens = p.tokens (positionAfter t.before)
  reports : t.reports = p.diagnostics (positionAfter t.before)

theorem Turn.Takes.behind {t : Turn} {c : Char} {rest : List Char} {p : Piece}
    (h : t.Takes c rest p) : t.behind = rest.drop p.more.length := by
  have htext := h.text
  rw [h.segment, List.cons_append, List.cons.injEq] at htext
  rw [← htext.2, List.drop_left]

/-- The turn takes the piece that the rules tell. -/
def Turn.Obeys (tables : Tables) (options : Options) (t : Turn) : Prop :=
  ∃ c rest, t.Takes c rest (Piece.of tables options c rest)

/-- The turns that the loop takes from a context up to the end of the text, and the context there. -/
inductive Context.Turns : List Char → Context → List Turn → Context → Prop
  | done {before : List Char} {ctx last : Context} {es : List Event}
      (hstep : Scan.step ctx = ⟨last, es, .ok none⟩) : Turns before ctx [] last
  | turn {before segment : List Char} {ctx ctx' last : Context} {es : List Event} {y : Yield}
      {turns : List Turn} (hstep : Scan.step ctx = ⟨ctx', es, .ok (some y)⟩)
      (hread : ctx.unread = segment ++ ctx'.unread)
      (hturns : Turns (before ++ segment) ctx' turns last) :
      Turns before ctx
        (⟨before, segment, ctx'.unread, y.tokens ctx'.start, reports es⟩ :: turns) last

namespace Context

variable {ctx ctx' last : Context} {es : List Event} {y : Yield} {before : List Char}
  {turns : List Turn}

/-! ## The loop, turn by turn -/

theorem drain_of_end (hstep : Scan.step ctx = ⟨last, es, .ok none⟩) :
    ctx.drain = ⟨last, es, none⟩ := by
  rw [drain]
  split
  all_goals simp_all

theorem drain_of_turn (hstep : Scan.step ctx = ⟨ctx', es, .ok (some y)⟩) :
    ctx.drain = { ctx'.drain with
      events := es ++ (y.tokens ctx'.start).map .token ++ ctx'.drain.events } := by
  rw [drain]
  split
  all_goals simp_all

/-- The turns tell all of the scan from a context that has read `before`. -/
structure Told (before : List Char) (ctx : Context) (turns : List Turn) : Prop where
  loop : Turns before ctx turns ctx.drain.context
  fault : ctx.drain.fault = none
  unread : ctx.drain.context.unread = []
  ended : ctx.drain.context.cursor.ended = true
  segments : turns.flatMap (·.segment) = ctx.unread
  tokens : Event.tokens ctx.drain.events = turns.flatMap (·.tokens)
  reports : Event.reports ctx.drain.events = turns.flatMap (·.reports)
  obeys : ∀ t ∈ turns, t.Obeys ctx.tables ctx.options

/-- At the end of the text there are no turns to tell of. -/
theorem told_of_nil (before : List Char) (hr : ctx.Ready) (hu : ctx.unread = []) :
    Told before ctx [] := by
  obtain ⟨last, es, hstep, hpasses, hended, hreports, htokens⟩ := exists_step_end hr hu
  have hdrain := drain_of_end hstep
  have hleft : last.unread = [] := by
    have := hpasses.reads.ahead
    exact this.symm.trans hu
  exact
    { loop := by rw [hdrain]; exact .done hstep
      fault := by rw [hdrain]
      unread := by rw [hdrain]; exact hleft
      ended := by rw [hdrain]; exact hended
      segments := hu.symm
      tokens := by rw [hdrain]; exact htokens
      reports := by rw [hdrain]; exact hreports
      obeys := fun t ht => by cases ht }

/-- In front of a character there is a turn, and what can be told behind it can be told here. -/
theorem exists_told_of_cons {c : Char} {rest : List Char} (hr : ctx.Ready)
    (hu : ctx.unread = c :: rest) (hplace : ctx.cursor.place = ({} : Place).steps before)
    (ih : ∀ (before' : List Char) (ctx' : Context), ctx'.unread.length < ctx.unread.length →
      ctx'.Ready → ctx'.cursor.place = ({} : Place).steps before' →
      ∃ turns, Told before' ctx' turns) :
    ∃ turns, Told before ctx turns := by
  obtain ⟨ctx', es, y, hstep, hpasses, hview, hreports, htokens⟩ := exists_step hr hu
  have hdrain := drain_of_turn hstep
  generalize hp : Piece.of ctx.tables ctx.options c rest = p at hpasses hview hreports
  have hread : ctx.unread = (c :: p.more) ++ ctx'.unread := hpasses.reads.ahead
  have hplace' : ctx'.cursor.place = ({} : Place).steps (before ++ c :: p.more) := by
    rw [hpasses.reads.place, hplace, Place.steps_append]
  have hless : ctx'.unread.length < ctx.unread.length := by
    rw [hread, List.length_append, List.length_cons]
    omega
  obtain ⟨turns, told⟩ := ih _ ctx' hless hpasses.ready hplace'
  rw [hplace, position_step_steps] at hview hreports
  -- The place in front of the turn is the one behind all that was read, so counting gives its start.
  refine ⟨⟨before, c :: p.more, ctx'.unread, y.tokens ctx'.start, Event.reports es⟩ :: turns, ?_⟩
  exact
    { loop := by rw [hdrain]; exact .turn hstep hread told.loop
      fault := by rw [hdrain]; exact told.fault
      unread := by rw [hdrain]; exact told.unread
      ended := by rw [hdrain]; exact told.ended
      segments := by rw [List.flatMap_cons, told.segments, hread]
      tokens := by simp [hdrain, htokens, told.tokens]
      reports := by simp [hdrain, told.reports]
      obeys := by
        intro t ht
        rcases List.mem_cons.mp ht with rfl | ht
        · subst hp
          exact ⟨c, rest, hread.symm.trans hu, rfl, hview, hreports⟩
        · rw [← hpasses.tables, ← hpasses.options]
          exact told.obeys t ht }

/-- **Every scan can be told.** It comes to the end of its text, without a fault, in turns that obey
the rules. -/
theorem exists_told (before : List Char) (ctx : Context) (hr : ctx.Ready)
    (hplace : ctx.cursor.place = ({} : Place).steps before) : ∃ turns, Told before ctx turns := by
  -- On what is left to be read: a turn reads a character at least.
  induction hn : ctx.unread.length using Nat.strongRecOn generalizing before ctx with
  | ind n ih =>
    subst hn
    cases hu : ctx.unread with
    | nil => exact ⟨[], told_of_nil before hr hu⟩
    | cons c rest =>
      exact exists_told_of_cons hr hu hplace fun before' ctx' hless hr' hplace' =>
        ih _ hless before' ctx' hr' hplace' rfl

theorem ready_ofText (text : List Char) (tables : Tables) (options : Options) (source : String) :
    (ofText text tables options source).Ready :=
  ⟨bounded_ofText text tables options source, Nat.le_refl _⟩

theorem exists_told_ofText (text : List Char) (tables : Tables) (options : Options)
    (source : String) : ∃ turns, Told [] (ofText text tables options source) turns :=
  exists_told [] _ (ready_ofText text tables options source) rfl

/-- The notes on its start and end are all that a scan adds to the loop. -/
theorem scan_eq (ctx : Context) :
    Event.tokens ctx.scan.events = Event.tokens ctx.drain.events ∧
      Event.reports ctx.scan.events = Event.reports ctx.drain.events := by
  have hevents : ∃ last, ctx.scan.events =
      .note (.scanning ctx.cursor.source) :: ctx.drain.events ++ last ∧
      Event.tokens last = [] ∧ Event.reports last = [] := by
    unfold scan
    dsimp only
    split
    · exact ⟨_, rfl, rfl, rfl⟩
    · exact ⟨_, rfl, rfl, rfl⟩
  obtain ⟨last, hevents, htokens, hreports⟩ := hevents
  rw [hevents, Event.tokens_append, Event.reports_append, htokens, hreports, List.append_nil,
    List.append_nil]
  exact ⟨rfl, rfl⟩

end Context

end CLexer
