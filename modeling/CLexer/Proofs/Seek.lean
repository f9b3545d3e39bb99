import CLexer.Proofs.Course
import CLexer.Session
import Mathlib.Logic.Function.Iterate

/-!
# Token by token

A scanner that is asked for one token at a time goes through its text in the same steps as one that
is not, and only pauses where it has something to hand out. What a context has still to give is told
by the text that is left (`Context.Promises`): the next token is the first of those promised, and
what is promised afterwards is the rest.

There is one exception. Two dots in front of a line end are found by one step and handed out in two,
and in between the second of them is in nobody's text any more. `Unpaired` texts have no such dots,
and with them a pause leaves nothing behind: where a scanner stands is told by how often it was
asked.
-/

set_option autoImplicit false

namespace CLexer

open Event CLexer.Text

/-- Nowhere do two dots stand right in front of a line feed or of the end. -/
structure Unpaired (text : List Char) : Prop where
  line : ¬ ['.', '.', '\n'] <:+: text
  last : ¬ ['.', '.'] <:+ text

theorem Unpaired.of_suffix {text rest : List Char} (h : Unpaired text) (hrest : rest <:+ text) :
    Unpaired rest where
  line := fun hline => h.line (hline.trans hrest.isInfix)
  last := fun hlast => h.last (hlast.trans hrest)

variable {tables : Tables} {options : Options}

/-! ## Steps hand out one token at most -/

theorem Piece.length_cuts_literal (quote : Char) (rest : List Char)
    {closed : List Char → List Cut × List Remark} (h : ∀ inside, (closed inside).1.length ≤ 1) :
    (Piece.literal options quote rest closed).cuts.length ≤ 1 := by
  unfold Piece.literal
  dsimp only
  split
  · split
    · exact h _
    · exact Nat.zero_le 1
  · exact Nat.zero_le 1

theorem Piece.length_cuts_closedChar (inside : List Char) :
    (Piece.closedChar options inside).1.length ≤ 1 := by
  unfold Piece.closedChar
  dsimp only
  split
  · exact Nat.zero_le 1
  · split
    · split
      · exact Nat.le_refl 1
      · exact Nat.zero_le 1
    · exact Nat.le_refl 1

theorem Piece.length_cuts_number (c : Char) (rest : List Char) :
    (Piece.number options c rest).cuts.length ≤ 1 := by
  unfold Piece.number
  dsimp only
  split
  · split
    · exact Nat.le_refl 1
    · exact Nat.zero_le 1
  · exact Nat.zero_le 1

theorem Piece.length_cuts_operator (c : Char) (rest : List Char) :
    (Piece.operator c rest).cuts.length ≤ 1 := by
  unfold Piece.operator
  split
  · split
    · unfold Piece.comment
      split
      · exact Nat.zero_le 1
      · split <;> exact Nat.zero_le 1
    · exact Nat.le_refl 1
  · exact Nat.le_refl 1

theorem Piece.length_cuts_directive (rest : List Char) :
    (Piece.directive tables options rest).cuts.length ≤ 1 := by
  unfold Piece.directive
  dsimp only
  split
  · exact Nat.le_refl 1
  · exact Nat.zero_le 1

theorem Piece.length_cuts_dots {rest : List Char} (h : Unpaired ('.' :: rest)) :
    (Piece.dots rest).cuts.length ≤ 1 := by
  unfold Piece.dots
  split
  · exact Nat.le_refl 1
  · exact absurd List.suffix_rfl h.last
  · rename_i more
    exact absurd ⟨[], more, rfl⟩ h.line
  · exact Nat.le_refl 1
  · exact Nat.le_refl 1

theorem Piece.length_cuts_of {c : Char} {rest : List Char} (h : Unpaired (c :: rest)) :
    (Piece.of tables options c rest).cuts.length ≤ 1 := by
  unfold Piece.of
  split
  · exact Nat.zero_le 1
  · unfold Piece.lexeme
    split
    · split
      · exact Piece.length_cuts_literal _ rest Piece.length_cuts_closedChar
      · split
        · exact Piece.length_cuts_literal _ rest fun _ => Nat.le_refl 1
        · exact Piece.length_cuts_number c rest
    · split
      · exact Nat.le_refl 1
      · split
        · unfold Piece.punctuation
          split
          · exact Piece.length_cuts_operator c rest
          · split
            · exact Nat.le_refl 1
            · split
              · exact Piece.length_cuts_directive rest
              · split
                · rename_i hdot
                  subst hdot
                  exact Piece.length_cuts_dots h
                · exact Nat.le_refl 1
        · exact Nat.zero_le 1

theorem Cut.length_tokens (start : Position) (ks : List Cut) :
    (Cut.tokens start ks).length = ks.length := by
  induction ks generalizing start with
  | nil => rfl
  | cons k ks ih => rw [Cut.tokens, List.length_cons, ih, List.length_cons]

/-! ## What is still to come -/

namespace Context

variable {ctx ctx' last : Context} {es : List Event} {ts : List Token} {ds : List Diagnostic}

/-- What is left to the context will hand out the tokens `ts` and report the diagnostics `ds`. -/
structure Promises (ctx : Context) (ts : List Token) (ds : List Diagnostic) : Prop where
  ready : ctx.Ready
  unpaired : Unpaired ctx.unread
  output : ∃ before, ctx.cursor.place = ({} : Place).steps before ∧
    outputOf ctx.tables ctx.options before ctx.unread = (ts, ds)

/-- What a step that is not the last one does to a promise. -/
theorem Promises.step {c : Char} {rest : List Char} (h : ctx.Promises ts ds)
    (hu : ctx.unread = c :: rest) :
    ∃ ctx' es y ts' ds', Scan.step ctx = ⟨ctx', es, .ok (some y)⟩ ∧ ctx'.Promises ts' ds' ∧
      ds = reports es ++ ds' ∧ (y = .nothing ∧ ts = ts' ∨ ∃ t, y = .token t ∧ ts = t :: ts') := by
  obtain ⟨before, hplace, hout⟩ := h.output
  have hcuts : (Piece.of ctx.tables ctx.options c rest).cuts.length ≤ 1 :=
    Piece.length_cuts_of (hu ▸ h.unpaired)
  obtain ⟨ctx', es, y, hstep, hpasses, htokens, hreports, -⟩ := exists_step h.ready hu
  rw [hu, outputOf_cons] at hout
  generalize Piece.of ctx.tables ctx.options c rest = p at hpasses htokens hreports hout hcuts
  rw [hplace, position_step_steps] at htokens hreports
  have hread : c :: rest = c :: (p.more ++ ctx'.unread) := hu.symm.trans hpasses.reads.ahead
  have hrest : rest.drop p.more.length = ctx'.unread := by
    rw [(List.cons.inj hread).2, List.drop_left]
  rw [hrest, ← htokens, ← hreports] at hout
  generalize hnext : outputOf ctx.tables ctx.options (before ++ c :: p.more) ctx'.unread = next
    at hout
  obtain ⟨ts', ds'⟩ := next
  obtain ⟨hts, hds⟩ := Prod.mk.inj hout
  refine ⟨ctx', es, y, ts', ds', hstep, ⟨hpasses.ready, ?_, before ++ c :: p.more, ?_, ?_⟩,
    hds.symm, ?_⟩
  · exact h.unpaired.of_suffix ⟨_, hpasses.reads.ahead.symm⟩
  · rw [hpasses.reads.place, hplace, Place.steps_append]
  · rw [hpasses.tables, hpasses.options, hnext]
  · cases y with
    | nothing => exact .inl ⟨rfl, hts.symm⟩
    | token t => exact .inr ⟨t, rfl, hts.symm⟩
    | dotPair t =>
      -- A piece of one token is no pair.
      rw [← Cut.length_tokens (positionAfter before)] at hcuts
      have hpair : (Yield.tokens ctx'.start (.dotPair t)).length ≤ 1 := by
        rw [htokens]
        exact hcuts
      exact absurd hpair (Nat.not_succ_le_self 1)

theorem seek_of_end (hstep : Scan.step ctx = ⟨last, es, .ok none⟩) :
    ctx.seek = ⟨last, es, .ok none⟩ := by
  rw [seek]
  split
  all_goals simp_all

theorem seek_of_nothing (hstep : Scan.step ctx = ⟨ctx', es, .ok (some .nothing)⟩) :
    ctx.seek = { ctx'.seek with events := es ++ ctx'.seek.events } := by
  rw [seek]
  split
  all_goals simp_all

theorem seek_of_token {t : Token} (hstep : Scan.step ctx = ⟨ctx', es, .ok (some (.token t))⟩) :
    ctx.seek = ⟨ctx', es, .ok (some (.token t))⟩ := by
  rw [seek]
  split
  all_goals simp_all

/-- **A scanner that is asked for a token keeps its promise.** What it finds is the first token of
those promised, and the rest stays promised. -/
theorem Promises.seek (h : ctx.Promises ts ds) :
    ∃ ctx' es ds', ctx.seek = ⟨ctx', es, .ok (ts.head?.map .token)⟩ ∧ ctx'.Promises ts.tail ds' ∧
      ds = reports es ++ ds' ∧ (ts = [] → ds' = []) := by
  -- On what is left to be read, as the scanner steps over what hands out nothing.
  induction hn : ctx.unread.length using Nat.strongRecOn generalizing ctx ds with
  | ind n ih =>
    subst hn
    cases hu : ctx.unread with
    | nil =>
      obtain ⟨before, hplace, hout⟩ := h.output
      rw [hu, outputOf_nil] at hout
      obtain ⟨rfl, rfl⟩ := Prod.mk.inj hout
      obtain ⟨ctx', es, hstep, hpasses, -, hreports, -⟩ := exists_step_end h.ready hu
      have hleft : ctx'.unread = [] := (List.append_eq_nil_iff.mp
        (hpasses.reads.ahead.symm.trans hu)).2
      refine ⟨ctx', es, [], seek_of_end hstep, ⟨hpasses.ready, ?_, before, ?_, ?_⟩, ?_,
        fun _ => rfl⟩
      · rw [hleft, ← hu]
        exact h.unpaired
      · rw [hpasses.reads.place, hplace]
        rfl
      · rw [hleft, outputOf_nil]
        rfl
      · rw [hreports]
        rfl
    | cons c rest =>
      obtain ⟨ctx', es, y, ts', ds', hstep, hnext, rfl, hy⟩ := h.step hu
      rcases hy with ⟨rfl, rfl⟩ | ⟨t, rfl, rfl⟩
      · have hless : ctx'.unread.length < ctx.unread.length := by
          have hlt := Scan.unread_step_lt (congrArg Outcome.result hstep)
          rwa [hstep] at hlt
        obtain ⟨ctx'', es', ds'', hseek, hpromises, rfl, hlast⟩ := ih _ hless hnext rfl
        refine ⟨ctx'', es ++ es', ds'', ?_, hpromises, ?_, hlast⟩
        · rw [seek_of_nothing hstep, hseek]
        · rw [reports_append, List.append_assoc]
      · exact ⟨ctx', es, ds', seek_of_token hstep, hnext, rfl, fun hnone => by cases hnone⟩

end Context

/-! ## Scanners with their collectors -/

namespace Seat

/-- The scanner after it was asked for a token, whoever asked. -/
def forward (s : Seat) : Seat where
  context := s.context.seek.context
  collector := Session.collect s.collector (reports s.context.seek.events)

theorem collect_eq (sink : Sink) (ds : List Diagnostic) :
    (Session.collect sink ds).diagnostics = sink.diagnostics ++ ds.filter sink.admits ∧
      (Session.collect sink ds).verbose = sink.verbose := by
  induction ds generalizing sink with
  | nil => exact ⟨(List.append_nil _).symm, rfl⟩
  | cons d ds ih =>
    have hcons : Session.collect sink (d :: ds) =
        Session.collect (if sink.admits d then sink.keep d else sink) ds := rfl
    rw [hcons]
    by_cases hd : sink.admits d = true
    · rw [if_pos hd, List.filter_cons_of_pos hd]
      obtain ⟨hdiagnostics, hverbose⟩ := ih (sink.keep d)
      refine ⟨hdiagnostics.trans ?_, hverbose⟩
      show (sink.taken.push d).toList ++ ds.filter sink.admits = _
      simp [Sink.diagnostics]
    · rw [if_neg hd, List.filter_cons_of_neg hd]
      exact ih sink

/-- The scanner will hand out the tokens `ts`, and `kept` is what its collector has then. -/
def Promises (s : Seat) (ts : List Token) (kept : List Diagnostic) : Prop :=
  ∃ ds, s.context.Promises ts ds ∧
    s.collector.diagnostics ++ ds.filter s.collector.admits = kept

variable {s : Seat} {ts : List Token} {kept : List Diagnostic}

theorem Promises.forward (h : s.Promises ts kept) :
    s.context.seek.result = .ok (ts.head?.map .token) ∧ s.forward.Promises ts.tail kept ∧
      (ts = [] → s.forward.collector.diagnostics = kept) := by
  obtain ⟨ds, hcontext, hkept⟩ := h
  obtain ⟨ctx', es, ds', hseek, hpromises, rfl, hlast⟩ := hcontext.seek
  have hforward : s.forward = ⟨ctx', Session.collect s.collector (reports es)⟩ := by
    rw [Seat.forward, hseek]
  obtain ⟨hdiagnostics, hverbose⟩ := collect_eq s.collector (reports es)
  have hadmits : (Session.collect s.collector (reports es)).admits = s.collector.admits := by
    funext d
    rw [Sink.admits, Sink.admits, hverbose]
  rw [List.filter_append, ← List.append_assoc, ← hdiagnostics] at hkept
  refine ⟨by rw [hseek], ?_, fun hnone => ?_⟩
  · rw [hforward]
    refine ⟨ds', hpromises, ?_⟩
    rw [hadmits]
    exact hkept
  · rw [hlast hnone, List.filter_nil, List.append_nil] at hkept
    rw [hforward]
    exact hkept

/-- How often it was asked tells what it has still to give. -/
theorem Promises.forwards (h : s.Promises ts kept) (m : Nat) :
    (Seat.forward^[m] s).Promises (ts.drop m) kept := by
  induction m with
  | zero => exact h
  | succ m ih =>
    rw [Function.iterate_succ_apply', ← List.tail_drop]
    exact ih.forward.2.1

/-- Behind its last token, the collector has everything. -/
theorem Promises.all_kept (h : s.Promises ts kept) {m : Nat} (hm : ts.length < m) :
    (Seat.forward^[m] s).collector.diagnostics = kept := by
  obtain ⟨n, rfl⟩ : ∃ n, m = n + 1 := ⟨m - 1, by omega⟩
  rw [Function.iterate_succ_apply']
  exact (h.forwards n).forward.2.2 (List.drop_eq_nil_of_le (by omega))

/-- A seat in front of a text promises what one scan of the text hands out and reports. -/
theorem promises_ofText {text : List Char} (h : Unpaired text) (tables : Tables) (options : Options)
    (source : String) :
    let whole := scanInput ⟨text, none⟩ tables options [.collector options.verbose] source
    (Seat.ofText text tables options).Promises whole.tokens whole.kept := by
  intro whole
  obtain ⟨-, htokens, hkept⟩ := scanInput_collector text tables options options.verbose source
  refine ⟨_, ⟨Context.ready_ofText text tables options "<input>", h, [], rfl, ?_⟩, hkept.symm⟩
  exact Prod.ext htokens.symm rfl

end Seat

end CLexer
