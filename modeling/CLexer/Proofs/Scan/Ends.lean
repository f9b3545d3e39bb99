import CLexer.Proofs.Buffer
import CLexer.Proofs.Cursor.Reading
import CLexer.Proofs.Lexeme
import CLexer.Proofs.Piece

/-!
# How a scanning routine ends

`Ends m ctx a seg held ds` says all of a run of the routine `m` from the context `ctx` that anyone
relies on later: it gives the value `a` and no fault, it has read `seg`, it leaves `held` in the
buffer, and it has reported `ds`. What it leaves open is what nobody can rely on: the trail of the
cursor, the room in the buffer, the notes for a log.

There is one rule for each step of a routine and one for `>>=`, so that the rule for a routine is put
together in the order of its own text. Two facts are spent all the time and proved nowhere else. A
context that is `Ready` stays so, because a routine only ever fills the buffer. And a character is
only given back by the routine that has just read it, so that giving back never fails: the rules
`Ends.lookAhead` and `Ends.retreat` are about reading and giving back at once.
-/

set_option autoImplicit false

namespace CLexer

open Event

/-! ## Events of a run -/

@[simp] theorem Event.reports_append (es es' : List Event) :
    reports (es ++ es') = reports es ++ reports es' := List.filterMap_append

@[simp] theorem Event.tokens_append (es es' : List Event) :
    tokens (es ++ es') = tokens es ++ tokens es' := List.filterMap_append

@[simp] theorem Event.tokens_map_token (ts : List Token) : tokens (ts.map .token) = ts := by
  induction ts with
  | nil => rfl
  | cons t ts ih => exact congrArg (t :: ·) ih

@[simp] theorem Event.reports_map_token (ts : List Token) : reports (ts.map .token) = [] := by
  induction ts with
  | nil => rfl
  | cons t ts ih => exact ih

/-! ## Contexts -/

namespace Context

variable {ctx ctx' ctx'' : Context} {seg seg' : List Char}

def held (ctx : Context) : List Char := ctx.buffer.chars.toList

/-- The buffer keeps to the limit that the options set. -/
structure Bounded (ctx : Context) : Prop where
  sound : ctx.buffer.Sound
  limit : ctx.buffer.limit = ctx.options.lexemeLimit

/-- What holds of a context throughout a scan. -/
structure Ready (ctx : Context) : Prop extends Bounded ctx where
  depth : 2 ≤ ctx.cursor.depth

/-- What holds where a token starts: its first character was just read, and nothing is stored. -/
structure Fresh (ctx : Context) : Prop extends Bounded ctx where
  held : ctx.held = []
  start : ctx.start = ctx.cursor.position

/-- The context comes to `ctx'` by reading `seg`, within one token. -/
structure Moves (ctx : Context) (seg : List Char) (ctx' : Context) : Prop where
  reads : ctx.cursor.Reads seg ctx'.cursor
  start : ctx'.start = ctx.start
  tables : ctx'.tables = ctx.tables
  options : ctx'.options = ctx.options
  limit : ctx'.buffer.limit = ctx.buffer.limit
  sound : ctx.buffer.Sound → ctx'.buffer.Sound

theorem Moves.of_reads {cur : Cursor} (h : ctx.cursor.Reads seg cur) :
    ctx.Moves seg { ctx with cursor := cur } :=
  ⟨h, rfl, rfl, rfl, rfl, id⟩

theorem Moves.refl (ctx : Context) : ctx.Moves [] ctx := .of_reads (.refl _)

theorem Moves.trans (h : ctx.Moves seg ctx') (h' : ctx'.Moves seg' ctx'') :
    ctx.Moves (seg ++ seg') ctx'' where
  reads := h.reads.trans h'.reads
  start := h'.start.trans h.start
  tables := h'.tables.trans h.tables
  options := h'.options.trans h.options
  limit := h'.limit.trans h.limit
  sound := fun hs => h'.sound (h.sound hs)

theorem Moves.bounded (h : ctx.Moves seg ctx') (hb : ctx.Bounded) : ctx'.Bounded where
  sound := h.sound hb.sound
  limit := by rw [h.limit, h.options, hb.limit]

theorem Moves.ready (h : ctx.Moves seg ctx') (hr : ctx.Ready) : ctx'.Ready where
  toBounded := h.bounded hr.toBounded
  depth := by rw [h.reads.depth]; exact hr.depth

theorem bounded_ofText (text : List Char) (tables : Tables) (options : Options) (source : String) :
    (ofText text tables options source).Bounded := by
  refine ⟨Buffer.sound_empty options.capacity_pos fun l hl => ?_, rfl⟩
  exact Nat.lt_of_lt_of_le options.wordLimit_pos (options.wordLimit_le l hl)

theorem Bounded.begin (hb : ctx.Bounded) : (Scan.begin ctx).context.Fresh :=
  ⟨⟨hb.sound.reset, hb.limit⟩, rfl, rfl⟩

/-- A token starts at the first character of a text. -/
theorem fresh_ofText (text : List Char) (tables : Tables) (options : Options) (source : String) :
    (Scan.begin (Scan.next (ofText text tables options source)).context).context.Fresh :=
  ((Moves.of_reads (.next _)).bounded (bounded_ofText text tables options source)).begin

theorem Moves.unread (h : ctx.Moves seg ctx') : ctx.unread = seg ++ ctx'.unread := h.reads.ahead

theorem Moves.unread_of_append {rest : List Char} (h : ctx.Moves seg ctx')
    (hu : ctx.unread = seg ++ rest) : ctx'.unread = rest :=
  List.append_cancel_left (h.unread.symm.trans hu)

theorem Moves.unread_of_take {n : Nat} (h : ctx.Moves (ctx.unread.take n) ctx') :
    ctx'.unread = ctx.unread.drop n :=
  h.unread_of_append (List.take_append_drop n ctx.unread).symm

theorem Moves.unread_same (h : ctx.Moves [] ctx') : ctx'.unread = ctx.unread := h.unread.symm

end Context

namespace Scan

variable {α β : Type} {ctx : Context} {m : Scan α} {f : α → Scan β} {a : α} {b : β}
  {seg seg' held held' : List Char} {ds ds' : List Diagnostic}

/-! ## Sequences -/

theorem bind_assoc {γ : Type} (m : Scan α) (f : α → Scan β) (g : β → Scan γ) :
    (m >>= f) >>= g = m >>= fun a => f a >>= g := by
  funext ctx
  show andThen (andThen m f) g ctx = andThen m (fun a => andThen (f a) g) ctx
  simp only [andThen]
  rcases m ctx with ⟨ctx₁, es₁, e | a⟩
  · rfl
  · dsimp only
    rcases f a ctx₁ with ⟨ctx₂, es₂, e | b⟩
    · rfl
    · simp only [List.append_assoc]

/-- The routine gives `a`, has read `seg`, leaves `held` in the buffer and has reported `ds`. -/
def Ends (m : Scan α) (ctx : Context) (a : α) (seg held : List Char) (ds : List Diagnostic) :
    Prop :=
  ∃ ctx' es, m ctx = ⟨ctx', es, .ok a⟩ ∧ ctx.Moves seg ctx' ∧ ctx'.held = held ∧
    reports es = ds ∧ tokens es = []

theorem Ends.result_eq (h : Ends m ctx a seg held ds) : (m ctx).result = .ok a := by
  obtain ⟨ctx', es, hrun, -⟩ := h
  rw [hrun]

theorem Ends.reports_eq (h : Ends m ctx a seg held ds) : reports (m ctx).events = ds := by
  obtain ⟨ctx', es, hrun, -, -, hreports, -⟩ := h
  rw [hrun, hreports]

theorem Ends.held_eq (h : Ends m ctx a seg held ds) : (m ctx).context.held = held := by
  obtain ⟨ctx', es, hrun, -, hheld, -⟩ := h
  rw [hrun, hheld]

theorem Ends.unread_split (h : Ends m ctx a seg held ds) :
    ctx.unread = seg ++ (m ctx).context.unread := by
  obtain ⟨ctx', es, hrun, hmoves, -⟩ := h
  rw [hrun, hmoves.unread]

/-- Going on from where one run has ended. -/
theorem Ends.after_run {ctx₁ : Context} {es₁ : List Event} (hrun : m ctx = ⟨ctx₁, es₁, .ok a⟩)
    (hmoves : ctx.Moves seg ctx₁) (hreports : reports es₁ = ds) (htokens : tokens es₁ = [])
    (hf : Ends (f a) ctx₁ b seg' held' ds') :
    Ends (m >>= f) ctx b (seg ++ seg') held' (ds ++ ds') := by
  obtain ⟨ctx₂, es₂, hrun₂, hmoves₂, hheld₂, hreports₂, htokens₂⟩ := hf
  refine ⟨ctx₂, es₁ ++ es₂, ?_, hmoves.trans hmoves₂, hheld₂, ?_, ?_⟩
  · show andThen m f ctx = _
    unfold andThen
    rw [hrun]
    dsimp only
    rw [hrun₂]
  · rw [reports_append, hreports, hreports₂]
  · rw [tokens_append, htokens, htokens₂, List.append_nil]

/-- Steps that report nothing leave the reports to those that follow. -/
theorem Ends.bind (hm : Ends m ctx a seg held [])
    (hf : ∀ ctx', ctx.Moves seg ctx' → ctx'.held = held → Ends (f a) ctx' b seg' held' ds) :
    Ends (m >>= f) ctx b (seg ++ seg') held' ds := by
  obtain ⟨ctx₁, es₁, hrun, hmoves, hheld, hreports, htokens⟩ := hm
  exact .after_run hrun hmoves hreports htokens (hf ctx₁ hmoves hheld)

/-- The same where it does not matter what is stored in the end. -/
theorem Ends.exists_bind (hm : Ends m ctx a seg held [])
    (hf : ∀ ctx', ctx.Moves seg ctx' → ctx'.held = held →
      ∃ held', Ends (f a) ctx' b seg' held' ds) :
    ∃ held', Ends (m >>= f) ctx b (seg ++ seg') held' ds := by
  obtain ⟨ctx₁, es₁, hrun, hmoves, hheld, hreports, htokens⟩ := hm
  obtain ⟨held', hends⟩ := hf ctx₁ hmoves hheld
  exact ⟨held', .after_run hrun hmoves hreports htokens hends⟩

theorem Ends.bind_quiet (hm : Ends m ctx a [] held [])
    (hf : ∀ ctx', ctx.Moves [] ctx' → ctx'.held = held → Ends (f a) ctx' b seg held' ds) :
    Ends (m >>= f) ctx b seg held' ds := hm.bind hf

/-- The last steps of a routine often read nothing. -/
theorem Ends.bind_still (hm : Ends m ctx a seg held [])
    (hf : ∀ ctx', ctx.Moves seg ctx' → ctx'.held = held → Ends (f a) ctx' b [] held' ds) :
    Ends (m >>= f) ctx b seg held' ds := by
  rw [← List.append_nil seg]
  exact hm.bind hf

theorem Ends.pure (a : α) (ctx : Context) : Ends (pure a : Scan α) ctx a [] ctx.held [] :=
  ⟨ctx, [], rfl, .refl ctx, rfl, rfl, rfl⟩

theorem Ends.map (hm : Ends m ctx a seg held ds) (g : α → β) :
    Ends (do return g (← m)) ctx (g a) seg held ds := by
  obtain ⟨ctx₁, es₁, hrun, hmoves, hheld, hreports, htokens⟩ := hm
  have hall := Ends.after_run (f := fun a => Pure.pure (g a)) hrun hmoves hreports htokens
    (.pure (g a) ctx₁)
  rw [List.append_nil, List.append_nil, hheld] at hall
  exact hall

/-! ## Steps -/

theorem Ends.ofContext {f : Context → Scan β} (h : Ends (f ctx) ctx b seg held ds) :
    Ends (context >>= f) ctx b seg held ds := h

theorem Ends.report (ctx : Context) (severity : Severity) (message : String) :
    Ends (report severity message) ctx () [] ctx.held [⟨severity, ctx.start, message⟩] :=
  ⟨ctx, [.report ⟨severity, ctx.start, message⟩], rfl, .refl ctx, rfl, rfl, rfl⟩

/-- A report is made where the token starts, and the routine goes on. -/
theorem Ends.report_then {k : Scan β} (severity : Severity) (message : String)
    (hk : ∀ ctx', ctx.Moves [] ctx' → ctx'.held = ctx.held → Ends k ctx' b seg held ds) :
    Ends (do Scan.report severity message; k) ctx b seg held
      (⟨severity, ctx.start, message⟩ :: ds) := by
  obtain ⟨ctx₁, es₁, hrun, hmoves, hheld, hreports, htokens⟩ := Ends.report ctx severity message
  exact .after_run hrun hmoves hreports htokens (hk ctx₁ hmoves hheld)

theorem Ends.advance (ctx : Context) (n : Nat) :
    Ends (advance n) ctx () (ctx.unread.take n) ctx.held [] :=
  ⟨{ ctx with cursor := ctx.cursor.advance n }, [], rfl, .of_reads (.advance _ n), rfl, rfl, rfl⟩

theorem Ends.next (ctx : Context) :
    Ends next ctx ctx.unread.head? (ctx.unread.take 1) ctx.held [] := by
  have hevents : ∀ seesEnd : Bool, reports (if seesEnd then [Event.textEnd] else []) = [] ∧
      tokens (if seesEnd then [Event.textEnd] else []) = [] := by
    intro seesEnd
    cases seesEnd <;> exact ⟨rfl, rfl⟩
  have hrun : Scan.next ctx = ⟨{ ctx with cursor := ctx.cursor.next.2 },
      if ctx.cursor.next.1.isNone && !ctx.cursor.ended then [Event.textEnd] else [],
      .ok ctx.cursor.next.1⟩ := rfl
  rw [Cursor.fst_next] at hrun
  exact ⟨_, _, hrun, .of_reads (.next _), rfl, hevents _⟩

theorem Ends.discard_next (ctx : Context) :
    Ends (discard Scan.next) ctx () (ctx.unread.take 1) ctx.held [] :=
  (Ends.next ctx).map fun _ => ()

/-- Looking at the next character reads a line feed and nothing else. -/
theorem Ends.lookAhead (ctx : Context) :
    Ends lookAhead ctx () (Piece.glanced ctx.unread) ctx.held [] := by
  cases hu : ctx.unread with
  | nil =>
    have hnext := Ends.next ctx
    rw [hu] at hnext
    exact hnext.bind fun ctx' _ hheld => by rw [← hheld]; exact .pure () ctx'
  | cons c rest =>
    by_cases hc : c = '\n'
    · -- A line feed stays read.
      subst hc
      have hnext := Ends.next ctx
      rw [hu] at hnext
      exact hnext.bind fun ctx' _ hheld => by rw [← hheld]; exact .pure () ctx'
    · -- Anything else is given back. Here the trail matters, which `Ends` does not speak of.
      obtain ⟨cur, hpush, hreads⟩ := Cursor.exists_pushback_next hu hc
      have hglanced : Piece.glanced (c :: rest) = [] := by
        unfold Piece.glanced
        split
        · rename_i heq
          exact absurd (List.cons.inj heq).1 hc
        · rfl
      have hrun : Scan.lookAhead ctx = ⟨{ ctx with cursor := cur }, [], .ok ()⟩ := by
        show andThen Scan.next giveBack ctx = _
        simp only [andThen, Scan.next, Cursor.next_of_cons (show ctx.cursor.ahead = _ from hu)]
          at hpush ⊢
        simp [giveBack, hc, Scan.pushback, hpush]
      rw [hglanced]
      exact ⟨_, [], hrun, .of_reads hreads, rfl, rfl, rfl⟩

/-- Reading two characters and giving both back reads nothing. -/
theorem Ends.retreat {x y : Char} {rest : List Char} {k : Scan α} (hr : ctx.Ready)
    (hu : ctx.unread = x :: y :: rest) (hx : x ≠ '\n') (hy : y ≠ '\n')
    (hk : ∀ ctx', ctx.Moves [] ctx' → ctx'.held = ctx.held → Ends k ctx' a seg held ds) :
    Ends (do Scan.advance 2; pushback; pushback; k) ctx a seg held ds := by
  obtain ⟨cur₁, cur₂, hpush₁, hpush₂, hreads⟩ := Cursor.exists_pushback_twice hu hx hy hr.depth
  have hmoves : ctx.Moves [] { ctx with cursor := cur₂ } := .of_reads hreads
  obtain ⟨ctx', es, hrun, hmoves', hheld, hreports, htokens⟩ := hk _ hmoves rfl
  refine ⟨ctx', es, ?_, hmoves.trans hmoves', hheld, hreports, htokens⟩
  show andThen (Scan.advance 2) (fun _ => andThen Scan.pushback fun _ =>
    andThen Scan.pushback fun _ => k) ctx = _
  simp only [andThen, Scan.advance, Scan.pushback, hpush₁, hpush₂, hrun, List.nil_append]

theorem Ends.advance_then_lookAhead (ctx : Context) (n : Nat) :
    Ends (do Scan.advance n; Scan.lookAhead) ctx ()
      (ctx.unread.take n ++ Piece.glanced (ctx.unread.drop n)) ctx.held [] := by
  apply (Ends.advance ctx n).bind
  intro ctx' hmoves hheld
  rw [← hmoves.unread_of_take, ← hheld]
  exact .lookAhead ctx'

/-- Reading the characters of a start of the text, and looking at the one behind them. -/
theorem Ends.advance_lookAhead {more : List Char} (h : more <+: ctx.unread) :
    Ends (do Scan.advance more.length; Scan.lookAhead) ctx ()
      (more ++ Piece.glanced (ctx.unread.drop more.length)) ctx.held [] := by
  have hread := Ends.advance_then_lookAhead ctx more.length
  rwa [Lexeme.take_of_isPrefix h] at hread

/-! ## The buffer -/

/-- Filling the buffer is seen by what is then in it and by what is left over. -/
theorem Ends.of_fill {cs left : List Char} (hleft : (ctx.buffer.fill cs).2 = left)
    (hchars : (ctx.buffer.fill cs).1.chars.toList = held)
    (hlimit : (ctx.buffer.fill cs).1.limit = ctx.buffer.limit) :
    Ends (fill cs) ctx left [] held [] := by
  have hnotes : ∀ gs : List Buffer.Growth,
      reports (gs.map growthNote) = [] ∧ tokens (gs.map growthNote) = [] := by
    intro gs
    induction gs with
    | nil => exact ⟨rfl, rfl⟩
    | cons g gs ih => exact ih
  have hrun : Scan.fill cs ctx = ⟨{ ctx with buffer := (ctx.buffer.fill cs).1 },
      (ctx.buffer.growths cs).map growthNote, .ok (ctx.buffer.fill cs).2⟩ := rfl
  have hsound : ctx.buffer.Sound → (ctx.buffer.fill cs).1.Sound := fun hs =>
    (Buffer.fill_eq cs hs).2.2.2
  rw [hleft] at hrun
  exact ⟨_, _, hrun, ⟨.refl _, rfl, rfl, rfl, hlimit, hsound⟩, hchars, hnotes _⟩

theorem Ends.fill (hb : ctx.Bounded) (cs : List Char) :
    Ends (fill cs) ctx (cs.drop (ctx.buffer.space cs.length)) []
      (ctx.held ++ cs.take (ctx.buffer.space cs.length)) [] := by
  obtain ⟨hleft, hchars, hlimit, -⟩ := Buffer.fill_eq cs hb.sound
  exact .of_fill hleft hchars hlimit

/-- A buffer without a limit takes everything, whatever room it starts with. -/
theorem Ends.fill_unlimited (h : ctx.buffer.limit = none) (cs : List Char) :
    Ends (Scan.fill cs) ctx [] [] (ctx.held ++ cs) [] := by
  obtain ⟨hleft, hchars, hlimit⟩ := Buffer.fill_unlimited cs h
  exact .of_fill hleft hchars (hlimit.trans h.symm)

theorem space_of_ready (hb : ctx.Bounded) (n : Nat) :
    ctx.buffer.space n =
      match ctx.options.lexemeLimit with
      | none => n
      | some l => l - ctx.held.length := by
  unfold Buffer.space
  rw [hb.limit]
  rfl

theorem Ends.fill_of_fits (hb : ctx.Bounded) (cs : List Char)
    (hfits : Piece.fits ctx.options (ctx.held.length + cs.length) = true) :
    Ends (Scan.fill cs) ctx [] [] (ctx.held ++ cs) [] := by
  have hspace : cs.length ≤ ctx.buffer.space cs.length := by
    rw [space_of_ready hb]
    unfold Piece.fits at hfits
    cases hl : ctx.options.lexemeLimit with
    | none => exact Nat.le_refl _
    | some l =>
      rw [hl] at hfits
      simp only [decide_eq_true_eq] at hfits
      show cs.length ≤ l - ctx.held.length
      omega
  have h := Ends.fill hb cs
  rw [List.drop_of_length_le hspace, List.take_of_length_le hspace] at h
  exact h

/-- Of characters that do not fit, those up to the limit are stored. -/
theorem Ends.fill_of_not_fits (hb : ctx.Bounded) (cs : List Char)
    (hfits : Piece.fits ctx.options (ctx.held.length + cs.length) = false) :
    ∃ l, ctx.options.lexemeLimit = some l ∧ l < ctx.held.length + cs.length ∧
      Ends (Scan.fill cs) ctx (cs.drop (l - ctx.held.length)) []
        (ctx.held ++ cs.take (l - ctx.held.length)) [] := by
  have h := Ends.fill hb cs
  rw [space_of_ready hb] at h
  unfold Piece.fits at hfits
  cases hl : ctx.options.lexemeLimit with
  | none =>
    rw [hl] at hfits
    cases hfits
  | some l =>
    rw [hl] at hfits h
    exact ⟨l, rfl, by simpa using hfits, h⟩

/-- The limit is no less than what is stored already. -/
theorem length_held_le (hb : ctx.Bounded) : ∀ l ∈ ctx.options.lexemeLimit, ctx.held.length ≤ l := by
  intro l hl
  rw [← hb.limit] at hl
  exact hb.sound.size_le.trans (hb.sound.capacity_le l hl)

theorem Ends.putAll_of_fits (hb : ctx.Bounded) (cs : List Char)
    (hfits : Piece.fits ctx.options (ctx.held.length + cs.length) = true) :
    Ends (putAll cs) ctx true [] (ctx.held ++ cs) [] := by
  rw [putAll_eq_fill]
  exact (Ends.fill_of_fits hb cs hfits).map List.isEmpty

theorem Ends.putAll_of_not_fits (hb : ctx.Bounded) (cs : List Char)
    (hfits : Piece.fits ctx.options (ctx.held.length + cs.length) = false) :
    ∃ held, Ends (putAll cs) ctx false [] held [] := by
  obtain ⟨l, hl, hlt, h⟩ := Ends.fill_of_not_fits hb cs hfits
  have hle := length_held_le hb l hl
  have hleft : (cs.drop (l - ctx.held.length)).isEmpty = false := by
    simp only [List.isEmpty_eq_false_iff, ne_eq, List.drop_eq_nil_iff]
    omega
  refine ⟨ctx.held ++ cs.take (l - ctx.held.length), ?_⟩
  rw [putAll_eq_fill, ← hleft]
  exact h.map List.isEmpty

theorem Ends.store_of_fits (hb : ctx.Bounded) (cs : List Char)
    (hfits : Piece.fits ctx.options (ctx.held.length + cs.length) = true) :
    Ends (store cs) ctx () [] (ctx.held ++ cs) [] :=
  (Ends.fill_of_fits hb cs hfits).bind fun ctx' _ hheld => by rw [← hheld]; exact .pure () ctx'

/-- A word is stored up to the word limit, which is never beyond the limit of the buffer. -/
theorem Ends.storeCapped (hb : ctx.Bounded) (hle : ctx.held.length ≤ ctx.options.wordLimit)
    (cs : List Char) :
    Ends (storeCapped ctx.options.wordLimit cs) ctx () []
      (ctx.held ++ cs.take (ctx.options.wordLimit - ctx.held.length)) [] := by
  refine Ends.ofContext (Ends.store_of_fits hb _ ?_)
  unfold Piece.fits
  cases hl : ctx.options.lexemeLimit with
  | none => rfl
  | some l =>
    have hlimit := ctx.options.wordLimit_le l hl
    have hsize : ctx.buffer.size = ctx.held.length := rfl
    simp only [List.length_take, decide_eq_true_eq]
    omega

/-! ## Tokens -/

/-- A token can be made of a part of the text, which has a character at least. -/
theorem Ends.tokenOf (ctx : Context) (k : Cut) :
    Ends (tokenOf k.kind (String.ofList k.chars)) ctx (k.token ctx.start) [] ctx.held [] := by
  have hmake : Token.make? k.kind (String.ofList k.chars) ctx.start = some (k.token ctx.start) :=
    dif_neg (k.token ctx.start).text_ne
  refine ⟨ctx, [.note (.scanned (k.token ctx.start))], ?_, .refl ctx, rfl, rfl, rfl⟩
  unfold Scan.tokenOf
  rw [hmake]

theorem Ends.tokenOfBuffer {k : Cut} (hheld : ctx.held = k.chars) :
    Ends (tokenOfBuffer k.kind) ctx (k.token ctx.start) [] ctx.held [] := by
  have htext : ctx.buffer.text = String.ofList k.chars := by
    unfold Buffer.text
    rw [← hheld]
    rfl
  refine Ends.ofContext ?_
  rw [htext]
  exact .tokenOf ctx k

/-! ## Routines that make a piece -/

/-- The routine makes the piece: it reads what the piece takes behind its first character, it reports
the remarks on it, and its value stands for the tokens of it. -/
def Makes (view : α → List Token) (m : Scan α) (ctx : Context) (p : Piece) : Prop :=
  ∃ a held, Ends m ctx a p.more held (p.diagnostics ctx.start) ∧ view a = p.tokens ctx.start

theorem Makes.map {view : α → List Token} {view' : β → List Token} {p : Piece}
    (h : Makes view m ctx p) {g : α → β} (hg : ∀ a, view' (g a) = view a) :
    Makes view' (do return g (← m)) ctx p := by
  obtain ⟨a, held, hends, hview⟩ := h
  exact ⟨g a, held, hends.map g, (hg a).trans hview⟩

/-- A routine that reports nothing leaves the rest of a piece to the routine after it. -/
theorem Makes.bind {view : β → List Token} {p : Piece} {more : List Char}
    (hm : Ends m ctx a seg held []) (hp : p.more = seg ++ more)
    (hf : ∀ ctx', ctx.Moves seg ctx' → ctx'.held = held → Makes view (f a) ctx' { p with more }) :
    Makes view (m >>= f) ctx p := by
  obtain ⟨ctx₁, es₁, hrun, hmoves, hheld, hreports, htokens⟩ := hm
  obtain ⟨b, held', hends, hview⟩ := hf ctx₁ hmoves hheld
  have hall := Ends.after_run hrun hmoves hreports htokens hends
  rw [← hp, hmoves.start] at hall
  rw [hmoves.start] at hview
  exact ⟨b, held', hall, hview⟩

theorem Makes.bind_quiet {view : β → List Token} {p : Piece} (hm : Ends m ctx a [] held [])
    (hf : ∀ ctx', ctx.Moves [] ctx' → ctx'.held = held → Makes view (f a) ctx' p) :
    Makes view (m >>= f) ctx p := Makes.bind hm rfl hf

/-- A routine may read all of its piece first and make up its mind about it then. -/
theorem Makes.of_read {view : β → List Token} {p : Piece} (hm : Ends m ctx a p.more held [])
    (hf : ∀ ctx', ctx.Moves p.more ctx' → ctx'.held = held →
      Makes view (f a) ctx' { p with more := [] }) :
    Makes view (m >>= f) ctx p := Makes.bind hm (List.append_nil _).symm hf

/-- Many pieces are a lexeme, read and looked behind, and only then made something of. -/
theorem Makes.of_lexeme {view : β → List Token} {k : Scan β} {p : Piece} {more : List Char}
    (hmore : more <+: ctx.unread)
    (hp : p.more = more ++ Piece.glanced (ctx.unread.drop more.length))
    (hk : ∀ ctx', ctx.Moves p.more ctx' → ctx'.held = ctx.held →
      Makes view k ctx' { p with more := [] }) :
    Makes view (do Scan.advance more.length; Scan.lookAhead; k) ctx p := by
  have hread := Ends.advance_lookAhead hmore
  rw [← hp] at hread
  have hmakes := Makes.of_read (f := fun _ => k) hread hk
  rwa [bind_assoc] at hmakes

theorem Makes.ofContext {view : β → List Token} {f : Context → Scan β} {p : Piece}
    (h : Makes view (f ctx) ctx p) : Makes view (context >>= f) ctx p := h

end Scan

end CLexer
