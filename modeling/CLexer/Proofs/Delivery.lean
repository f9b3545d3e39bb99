import CLexer.Scanning

/-!
# What a chain of sinks lets through

A scan says everything it has to say before any of it is handed on, so a chain of sinks can only
cut its events short: what the outside has seen is a start of them (`deliver_events_isPrefix`). It
is all of them if every sink of the chain can take what it admits (`deliver_of_takes`). A verbose
collector admits everything, and keeps the diagnostics in their order (`deliver_collector`).

What it holds in the end is asked for errors, by counting them or by looking for one. The two agree
(`anyError_iff_errorCount`).
-/

set_option autoImplicit false

namespace CLexer

open Event

variable {chain : Chain}

/-- Whatever the chain, what gets through is a start of the events. -/
theorem deliver_events_isPrefix (chain : Chain) (es : List Event) :
    (deliver chain es).events <+: es := by
  induction es generalizing chain with
  | nil => exact List.nil_prefix
  | cons e es ih =>
    cases e with
    | report d =>
      unfold deliver
      split
      · exact List.nil_prefix
      · exact List.cons_prefix_cons.mpr ⟨rfl, ih _⟩
    | note n => exact List.cons_prefix_cons.mpr ⟨rfl, ih _⟩
    | token t => exact List.cons_prefix_cons.mpr ⟨rfl, ih _⟩
    | textEnd => exact List.cons_prefix_cons.mpr ⟨rfl, ih _⟩

/-- So is what gets through of an input that breaks off. -/
theorem scanInput_events_isPrefix (input : Input) (tables : Tables) (options : Options)
    (chain : Chain) (source : String) :
    (scanInput input tables options chain source).events <+:
      (Context.ofText input.chars tables options source).scan.events := by
  have hcut : ∀ trace : Trace, (cutAtFault input trace).1 <+: trace.events := by
    intro trace
    unfold cutAtFault
    split
    · exact List.prefix_rfl
    · exact List.takeWhile_prefix _
  exact (deliver_events_isPrefix chain _).trans (hcut _)

/-! ## Chains that take what they admit -/

/-- No sink of the chain is only the outline of one, so that each can take what it admits. -/
def Chain.Takes (chain : Chain) : Prop := ∀ s ∈ chain, s.role ≠ .outline

/-- A diagnostic is not refused by such a chain, and the chain stays such a one. -/
theorem Chain.Takes.report (h : Chain.Takes chain) (d : Diagnostic) :
    (Chain.report d chain).2 = false ∧ Chain.Takes (Chain.report d chain).1 := by
  induction chain with
  | nil => exact ⟨rfl, h⟩
  | cons s rest ih =>
    obtain ⟨hrefused, htakes⟩ := ih fun s' hs' => h s' (List.mem_cons_of_mem s hs')
    have hrole : s.role ≠ .outline := h s List.mem_cons_self
    unfold Chain.report
    by_cases hadmits : s.admits d = true
    · -- It is kept here and handed on.
      rw [if_pos hadmits, if_neg hrole]
      refine ⟨hrefused, fun s' hs' => ?_⟩
      rcases List.mem_cons.mp hs' with rfl | hs'
      · exact hrole
      · exact htakes s' hs'
    · -- It goes no further.
      rw [if_neg hadmits]
      exact ⟨rfl, h⟩

/-- After a diagnostic that is not refused, the delivery goes on with the chain that it leaves. -/
theorem deliver_report {d : Diagnostic} (h : (Chain.report d chain).2 = false) (es : List Event) :
    deliver chain (.report d :: es) =
      { deliver (Chain.report d chain).1 es with
        events := .report d :: (deliver (Chain.report d chain).1 es).events } := by
  rw [deliver]
  generalize Chain.report d chain = result at h
  obtain ⟨chain', refused⟩ := result
  cases h
  rfl

theorem deliver_of_takes (h : Chain.Takes chain) (es : List Event) :
    (deliver chain es).refused = false ∧ (deliver chain es).events = es := by
  induction es generalizing chain with
  | nil => exact ⟨rfl, rfl⟩
  | cons e es ih =>
    cases e with
    | report d =>
      obtain ⟨hrefused, htakes⟩ := h.report d
      obtain ⟨ihrefused, ihevents⟩ := ih htakes
      rw [deliver_report hrefused]
      exact ⟨ihrefused, congrArg (Event.report d :: ·) ihevents⟩
    | note n =>
      obtain ⟨ihrefused, ihevents⟩ := ih h
      exact ⟨ihrefused, congrArg (Event.note n :: ·) ihevents⟩
    | token t =>
      obtain ⟨ihrefused, ihevents⟩ := ih h
      exact ⟨ihrefused, congrArg (Event.token t :: ·) ihevents⟩
    | textEnd =>
      obtain ⟨ihrefused, ihevents⟩ := ih h
      exact ⟨ihrefused, congrArg (Event.textEnd :: ·) ihevents⟩

/-- A scan that has no fault and such a chain in front of it has nothing to stop it. -/
theorem scanInput_of_takes {chars : List Char} {tables : Tables} {options : Options}
    {source : String} (h : Chain.Takes chain)
    (hfault : (Context.ofText chars tables options source).scan.fault = none) :
    let events := (Context.ofText chars tables options source).scan.events
    scanInput ⟨chars, none⟩ tables options chain source =
      ⟨events, (deliver chain events).chain, none⟩ := by
  intro events
  obtain ⟨hrefused, hevents⟩ := deliver_of_takes h events
  have hscan : scanInput ⟨chars, none⟩ tables options chain source =
      ⟨(deliver chain events).events, (deliver chain events).chain,
        if (deliver chain events).refused then some .refused
        else (Context.ofText chars tables options source).scan.fault.map .fault⟩ := rfl
  rw [hscan, hrefused, hevents, hfault]
  rfl

/-! ## Sinks behind sinks -/

/-- The sink with more diagnostics behind those it has. -/
def Sink.keepAll (s : Sink) (ds : List Diagnostic) : Sink :=
  { s with taken := s.taken ++ ds.toArray }

theorem Sink.keepAll_nil (s : Sink) : s.keepAll [] = s := by
  simp [keepAll]

theorem Sink.keepAll_cons (s : Sink) (d : Diagnostic) (ds : List Diagnostic) :
    s.keepAll (d :: ds) = (s.keep d).keepAll ds := by
  simp [keepAll, keep]

/-- The first sink of a chain keeps the diagnostics it admits behind those it has, and they are all
that the others are handed. -/
theorem deliver_cons {s : Sink} {rest : Chain} (hs : s.role ≠ .outline) (h : rest.Takes)
    (es : List Event) :
    (deliver (s :: rest) es).chain =
      s.keepAll ((reports es).filter s.admits) ::
        (deliver rest (((reports es).filter s.admits).map .report)).chain := by
  induction es generalizing s rest with
  | nil => simp [deliver, reports, Sink.keepAll_nil]
  | cons e es ih =>
    cases e with
    | report d =>
      have hreports : reports (.report d :: es) = d :: reports es := rfl
      rw [hreports]
      cases hd : s.admits d with
      | true =>
        -- It is kept here, and the others are handed it before the diagnostics that follow.
        obtain ⟨hrefused, htakes⟩ := h.report d
        have hstep : (deliver (s :: rest) (.report d :: es)).chain =
            (deliver (s.keep d :: (Chain.report d rest).1) es).chain := by
          simp [deliver, Chain.report, hd, hs, hrefused]
        have hadmits : (s.keep d).admits = s.admits := rfl
        rw [hstep, ih (s := s.keep d) hs htakes, List.filter_cons_of_pos hd, List.map_cons,
          deliver_report hrefused, Sink.keepAll_cons, hadmits]
      | false =>
        have hstep : (deliver (s :: rest) (.report d :: es)).chain =
            (deliver (s :: rest) es).chain := by
          simp [deliver, Chain.report, hd]
        rw [hstep, ih hs h, List.filter_cons_of_neg (by simp [hd])]
    | note n => exact ih hs h
    | token t => exact ih hs h
    | textEnd => exact ih hs h

theorem chain_deliver_nil (es : List Event) : (deliver [] es).chain = [] := by
  induction es with
  | nil => rfl
  | cons e es ih => cases e <;> exact ih

/-- A collector keeps the diagnostics it admits behind those it has. -/
theorem deliver_to_collector (verbose : Bool) (taken : Array Diagnostic) (es : List Event) :
    (deliver [⟨.collector, verbose, taken⟩] es).chain =
      [⟨.collector, verbose,
        taken ++ ((reports es).filter (Sink.collector verbose).admits).toArray⟩] := by
  have hrole : SinkRole.collector ≠ .outline := by decide
  rw [deliver_cons hrole (by simp [Chain.Takes]), chain_deliver_nil]
  rfl

/-- A verbose collector keeps every diagnostic behind those it has. -/
theorem deliver_collector (taken : Array Diagnostic) (es : List Event) :
    (deliver [⟨.collector, true, taken⟩] es).chain =
      [⟨.collector, true, taken ++ (reports es).toArray⟩] := by
  have hall : (reports es).filter (Sink.collector true).admits = reports es :=
    List.filter_eq_self.mpr fun _ _ => rfl
  rw [deliver_to_collector, hall]

/-! ## Errors among the diagnostics -/

theorem errorCount_eq (ds : List Diagnostic) :
    errorCount ds = ds.countP fun d => d.severity = .error ∨ d.severity = .fatal := by
  induction ds with
  | nil => rfl
  | cons d ds ih =>
    simp only [errorCount, countOf, List.countP_cons] at ih ⊢
    rw [← ih]
    cases hd : d.severity <;> simp <;> omega

theorem anyError_iff {ds : List Diagnostic} :
    anyError ds = true ↔ ∃ d ∈ ds, d.severity = .error ∨ d.severity = .fatal := by
  have hcases : ∀ s : Severity, s.isError = true ↔ s = .error ∨ s = .fatal := by
    intro s
    cases s <;> decide
  simp [anyError, hcases]

/-- There is an error exactly if errors are counted. -/
theorem anyError_iff_errorCount (ds : List Diagnostic) :
    anyError ds = true ↔ 0 < errorCount ds := by
  rw [anyError_iff, errorCount_eq, List.countP_pos_iff]
  simp only [decide_eq_true_eq]

end CLexer
