import CLexer.Proofs.Delivery
import Mathlib.Order.Nat

/-!
# Forwarding along a chain

Which sinks of a chain get to keep a diagnostic. A diagnostic that is handed to a sink goes down
the chain until a sink does not let it in or cannot take it, and each sink keeps it before it
passes it on. So a sink keeps what it is handed if all sinks from the first one down to it let it
in and can take it (`getElem?_reportAt`), and a refusal further down takes nothing back from the
sinks above.

Over a run of a chain, with diagnostics handed to any of its sinks and the sinks made verbose or
not at any time, what a collector holds is what it was given since it was last cleared, in order
(`diagnostics_acts`).
-/

set_option autoImplicit false

namespace CLexer

/-- The sink lets the diagnostic in and can take it. -/
def Sink.Takes (s : Sink) (d : Diagnostic) : Prop := s.admits d = true ∧ s.role ≠ .outline

instance (s : Sink) (d : Diagnostic) : Decidable (s.Takes d) :=
  inferInstanceAs (Decidable (_ ∧ _))

namespace Chain

/-! ## Stretches of a chain -/

/-- Every sink from one index to another is such a one. -/
def Every (P : Sink → Prop) (chain : Chain) (i j : Nat) : Prop :=
  ∀ k ≤ j, i ≤ k → ∀ s ∈ chain[k]?, P s

instance (P : Sink → Prop) [DecidablePred P] (chain : Chain) (i j : Nat) :
    Decidable (Every P chain i j) :=
  inferInstanceAs (Decidable (∀ k ≤ j, i ≤ k → ∀ s ∈ chain[k]?, P s))

/-- Every sink from one index to another lets the diagnostic in. -/
def Accepted (chain : Chain) (i j : Nat) (d : Diagnostic) : Prop :=
  d.severity ≠ .debug ∨ chain.Every (·.verbose = true) i j

/-- A diagnostic handed to the sink at `i` is kept by the sink at `j`. -/
def Handles (chain : Chain) (i j : Nat) (d : Diagnostic) : Prop :=
  i ≤ j ∧ chain.Accepted i j d ∧ chain.Every (·.role ≠ .outline) i j

/-- A diagnostic handed to the sink at `i` may come as far as the sink at `k`, which can take
nothing. -/
def Blocks (chain : Chain) (i k : Nat) (d : Diagnostic) : Prop :=
  i ≤ k ∧ (∃ s ∈ chain[k]?, s.role = .outline) ∧ chain.Accepted i k d

instance (chain : Chain) (i j : Nat) (d : Diagnostic) : Decidable (chain.Accepted i j d) :=
  inferInstanceAs (Decidable (_ ∨ _))

instance (chain : Chain) (i j : Nat) (d : Diagnostic) : Decidable (chain.Handles i j d) :=
  inferInstanceAs (Decidable (_ ∧ _))

variable {P Q : Sink → Prop} {chain rest : Chain} {s : Sink} {i j k : Nat} {d : Diagnostic}

theorem every_cons_zero : Every P (s :: rest) 0 0 ↔ P s := by
  constructor
  · intro h
    exact h 0 le_rfl le_rfl s rfl
  · intro hs k hk _ t ht
    obtain rfl := Nat.le_zero.mp hk
    obtain rfl := Option.some.inj ht
    exact hs

theorem every_cons_succ : Every P (s :: rest) 0 (j + 1) ↔ P s ∧ Every P rest 0 j := by
  constructor
  · intro h
    exact ⟨h 0 (Nat.zero_le _) le_rfl s rfl,
      fun k hk _ => h (k + 1) (Nat.succ_le_succ hk) (Nat.zero_le _)⟩
  · rintro ⟨hs, hrest⟩ k hk - t ht
    cases k with
    | zero =>
      obtain rfl := Option.some.inj ht
      exact hs
    | succ k => exact hrest k (Nat.le_of_succ_le_succ hk) (Nat.zero_le _) t ht

theorem every_drop (h : i ≤ j) : Every P (chain.drop i) 0 (j - i) ↔ Every P chain i j := by
  constructor
  · intro hall k hk hik t ht
    refine hall (k - i) (Nat.sub_le_sub_right hk i) (Nat.zero_le _) t ?_
    rwa [List.getElem?_drop, Nat.add_sub_cancel' hik]
  · intro hall k hk _ t ht
    rw [List.getElem?_drop] at ht
    exact hall (i + k) (by omega) (Nat.le_add_right i k) t ht

theorem Every.and (hp : Every P chain i j) (hq : Every Q chain i j) :
    Every (fun s => P s ∧ Q s) chain i j :=
  fun k hk hik t ht => ⟨hp k hk hik t ht, hq k hk hik t ht⟩

theorem Every.imp (h : ∀ s, P s → Q s) (hp : Every P chain i j) : Every Q chain i j :=
  fun k hk hik t ht => h t (hp k hk hik t ht)

theorem Every.up_to (hkj : k ≤ j) (h : Every P chain i j) : Every P chain i k :=
  fun m hm => h m (hm.trans hkj)

theorem accepted_iff : chain.Accepted i j d ↔ Every (·.admits d = true) chain i j := by
  constructor
  · rintro (hsevere | hverbose)
    · intro k _ _ t _
      simp [Sink.admits, hsevere]
    · exact hverbose.imp fun t ht => by simp [Sink.admits, ht]
  · intro hall
    by_cases hsevere : d.severity = .debug
    · refine .inr (hall.imp fun t ht => ?_)
      simpa [Sink.admits, hsevere] using ht
    · exact .inl hsevere

theorem handles_iff : chain.Handles i j d ↔ i ≤ j ∧ Every (·.Takes d) chain i j := by
  constructor
  · rintro ⟨hij, haccepted, hroles⟩
    exact ⟨hij, (accepted_iff.mp haccepted).and hroles⟩
  · rintro ⟨hij, htakes⟩
    exact ⟨hij, accepted_iff.mpr (htakes.imp fun _ h => h.1), htakes.imp fun _ h => h.2⟩

/-! ## One diagnostic -/

/-- What cannot be taken here goes no further. -/
theorem report_of_not_takes (h : ¬ s.Takes d) : (report d (s :: rest)).1 = s :: rest := by
  unfold report
  split
  · next hadmits =>
    rw [if_pos (not_not.mp fun hrole => h ⟨hadmits, hrole⟩)]
  · rfl

theorem report_of_takes (h : s.Takes d) :
    report d (s :: rest) = (s.keep d :: (report d rest).1, (report d rest).2) := by
  rw [report, if_pos h.1, if_neg h.2]

theorem getElem?_report (h : chain[j]? = some s) :
    (report d chain).1[j]? = some (if Every (·.Takes d) chain 0 j then s.keep d else s) := by
  induction chain generalizing j with
  | nil => cases h
  | cons t rest ih =>
    by_cases htakes : t.Takes d
    · rw [report_of_takes htakes]
      cases j with
      | zero =>
        obtain rfl := Option.some.inj h
        rw [if_pos (every_cons_zero.mpr htakes)]
        rfl
      | succ j =>
        have hevery : Every (·.Takes d) (t :: rest) 0 (j + 1) ↔ Every (·.Takes d) rest 0 j := by
          rw [every_cons_succ, and_iff_right htakes]
        simp only [hevery]
        exact ih h
    · have hevery : ¬ Every (·.Takes d) (t :: rest) 0 j :=
        fun hall => htakes (hall 0 (Nat.zero_le _) le_rfl t rfl)
      rw [report_of_not_takes htakes, if_neg hevery]
      exact h

theorem length_report (d : Diagnostic) (chain : Chain) :
    (report d chain).1.length = chain.length := by
  induction chain with
  | nil => rfl
  | cons s rest ih =>
    by_cases htakes : s.Takes d
    · rw [report_of_takes htakes]
      exact congrArg Nat.succ ih
    · rw [report_of_not_takes htakes]

theorem blocks_cons_succ (hadmits : s.admits d = true) :
    Blocks (s :: rest) 0 (k + 1) d ↔ Blocks rest 0 k d := by
  unfold Blocks
  rw [accepted_iff, accepted_iff, every_cons_succ, and_iff_right hadmits, List.getElem?_cons_succ]
  simp only [Nat.zero_le]

/-- A diagnostic is refused if it comes as far as a sink that can take nothing. -/
theorem report_refused_iff : (report d chain).2 = true ↔ ∃ k, chain.Blocks 0 k d := by
  induction chain with
  | nil => simp [report, Blocks]
  | cons s rest ih =>
    by_cases hadmits : s.admits d = true
    · by_cases hrole : s.role = .outline
      · have hreport : (report d (s :: rest)).2 = true := by
          rw [report, if_pos hadmits, if_pos hrole]
        exact iff_of_true hreport ⟨0, le_rfl, ⟨s, rfl, hrole⟩,
          accepted_iff.mpr (every_cons_zero.mpr hadmits)⟩
      · rw [report_of_takes ⟨hadmits, hrole⟩, ih]
        constructor
        · rintro ⟨k, hblocks⟩
          exact ⟨k + 1, (blocks_cons_succ hadmits).mpr hblocks⟩
        · rintro ⟨k, hblocks⟩
          cases k with
          | zero =>
            obtain ⟨-, ⟨t, ht, houtline⟩, -⟩ := hblocks
            obtain rfl := Option.some.inj ht
            exact absurd houtline hrole
          | succ k => exact ⟨k, (blocks_cons_succ hadmits).mp hblocks⟩
    · have hreport : (report d (s :: rest)).2 = false := by rw [report, if_neg hadmits]
      refine iff_of_false (by rw [hreport]; exact Bool.false_ne_true) ?_
      rintro ⟨k, -, -, haccepted⟩
      exact hadmits (accepted_iff.mp haccepted 0 (Nat.zero_le _) le_rfl s rfl)

theorem blocks_drop (h : i ≤ k) : Blocks (chain.drop i) 0 (k - i) d ↔ chain.Blocks i k d := by
  unfold Blocks
  rw [accepted_iff, accepted_iff, every_drop h, List.getElem?_drop, Nat.add_sub_cancel' h]
  simp only [Nat.zero_le, h, true_and]

theorem reportAt_refused_iff : (chain.reportAt i d).2 = true ↔ ∃ k, chain.Blocks i k d := by
  have hreport : (chain.reportAt i d).2 = (report d (chain.drop i)).2 := rfl
  rw [hreport, report_refused_iff]
  constructor
  · rintro ⟨k, hblocks⟩
    rw [← Nat.add_sub_cancel_left (n := i) (m := k), blocks_drop (Nat.le_add_right i k)] at hblocks
    exact ⟨i + k, hblocks⟩
  · rintro ⟨k, hblocks⟩
    exact ⟨k - i, (blocks_drop hblocks.1).mpr hblocks⟩

/-- The sinks in front of the first one that cannot take the diagnostic are the ones that keep it.
-/
theorem handles_iff_of_blocks (h : IsLeast {k | chain.Blocks i k d} k) :
    chain.Handles i j d ↔ i ≤ j ∧ j < k := by
  obtain ⟨⟨hik, ⟨s, hs, houtline⟩, haccepted⟩, hleast⟩ := h
  constructor
  · rintro ⟨hij, -, hroles⟩
    refine ⟨hij, not_le.mp fun hkj => ?_⟩
    exact hroles k hkj hik s hs houtline
  · rintro ⟨hij, hjk⟩
    refine ⟨hij, accepted_iff.mpr ((accepted_iff.mp haccepted).up_to hjk.le), ?_⟩
    intro m hmj him t ht hrole
    have hblocks : chain.Blocks i m d :=
      ⟨him, ⟨t, ht, hrole⟩, accepted_iff.mpr ((accepted_iff.mp haccepted).up_to (hmj.trans hjk.le))⟩
    have hkm : k ≤ m := hleast hblocks
    omega

/-- A diagnostic is kept exactly where it is handled, and once there. -/
theorem getElem?_reportAt (i : Nat) (d : Diagnostic) (h : chain[j]? = some s) :
    (chain.reportAt i d).1[j]? = some (if chain.Handles i j d then s.keep d else s) := by
  have hlength : j < chain.length := (List.getElem?_eq_some_iff.mp h).1
  have hreport : (chain.reportAt i d).1 = chain.take i ++ (report d (chain.drop i)).1 := rfl
  rw [hreport]
  by_cases hij : i ≤ j
  · have htake : (chain.take i).length = i := List.length_take_of_le (hij.trans hlength.le)
    have hdrop : (chain.drop i)[j - i]? = some s := by
      rwa [List.getElem?_drop, Nat.add_sub_cancel' hij]
    rw [List.getElem?_append_right (htake.trans_le hij), htake, getElem?_report hdrop]
    simp only [handles_iff, every_drop hij, hij, true_and]
  · have htake : j < (chain.take i).length := by
      rw [List.length_take]
      omega
    rw [List.getElem?_append_left htake, List.getElem?_take_of_lt (by omega), h,
      if_neg fun hhandles => hij hhandles.1]

theorem length_reportAt (chain : Chain) (i : Nat) (d : Diagnostic) :
    (chain.reportAt i d).1.length = chain.length := by
  have hreport : (chain.reportAt i d).1 = chain.take i ++ (report d (chain.drop i)).1 := rfl
  rw [hreport, List.length_append, length_report, ← List.length_append, List.take_append_drop]

/-- There is a first sink that refuses the diagnostic, if any does. -/
theorem exists_first_of_refused (h : (chain.reportAt i d).2 = true) :
    ∃ k, IsLeast {k | chain.Blocks i k d} k ∧ ∀ j, chain.Handles i j d ↔ i ≤ j ∧ j < k := by
  classical
  have hfirst := Nat.isLeast_find (reportAt_refused_iff.mp h)
  exact ⟨_, hfirst, fun _ => handles_iff_of_blocks hfirst⟩

/-! ## Runs -/

/-- What happens to a chain. -/
inductive Action where
  | emit (i : Nat) (d : Diagnostic)
  | setVerbose (i : Nat) (verbose : Bool)
  | clear (i : Nat)
deriving DecidableEq

/-- The chain after an action, and whether a diagnostic was refused. -/
def act (chain : Chain) : Action → Chain × Bool
  | .emit i d => chain.reportAt i d
  | .setVerbose i verbose => (chain.modifyAt i fun s => { s with verbose }, false)
  | .clear i => (chain.modifyAt i Sink.clear, false)

def acts (chain : Chain) (actions : List Action) : Chain :=
  actions.foldl (fun now action => (now.act action).1) chain

/-- What an action gives to the sink at `j`. -/
def given? (j : Nat) (chain : Chain) : Action → Option Diagnostic
  | .emit i d => if chain.Handles i j d then some d else none
  | .setVerbose _ _ => none
  | .clear _ => none

/-- What is given to the sink at `j` over a run, in order. -/
def given (j : Nat) (chain : Chain) : List Action → List Diagnostic
  | [] => []
  | action :: actions => (given? j chain action).toList ++ given j (chain.act action).1 actions

theorem getElem?_modifyAt (i : Nat) (f : Sink → Sink) (h : chain[j]? = some s) :
    (chain.modifyAt i f)[j]? = some (if i = j then f s else s) := by
  rw [modifyAt, List.getElem?_modify, h]
  rfl

/-- An action adds to a sink what it gives to it, unless it clears the sink. -/
theorem diagnostics_act {action : Action} (hclear : action ≠ .clear j) (h : chain[j]? = some s) :
    ∃ s', (chain.act action).1[j]? = some s' ∧ s'.role = s.role ∧
      s'.diagnostics = s.diagnostics ++ (given? j chain action).toList := by
  cases action with
  | emit i d =>
    have hact : (chain.act (.emit i d)).1[j]? = _ := getElem?_reportAt i d h
    by_cases hhandles : chain.Handles i j d
    · rw [if_pos hhandles] at hact
      have hgiven : given? j chain (.emit i d) = some d := if_pos hhandles
      rw [hgiven]
      exact ⟨s.keep d, hact, rfl, Array.toList_push⟩
    · rw [if_neg hhandles] at hact
      have hgiven : given? j chain (.emit i d) = none := if_neg hhandles
      rw [hgiven]
      exact ⟨s, hact, rfl, (List.append_nil _).symm⟩
  | setVerbose i verbose =>
    refine ⟨_, getElem?_modifyAt i _ h, ?_, ?_⟩
    · split <;> rfl
    · split <;> exact (List.append_nil _).symm
  | clear i =>
    have hij : i ≠ j := fun h => hclear (h ▸ rfl)
    have hact : (chain.act (.clear i)).1[j]? = _ := getElem?_modifyAt i Sink.clear h
    rw [if_neg hij] at hact
    exact ⟨s, hact, rfl, (List.append_nil _).symm⟩

theorem diagnostics_acts {since : List Action} (hclear : .clear j ∉ since)
    (h : chain[j]? = some s) :
    ∃ s', (chain.acts since)[j]? = some s' ∧ s'.role = s.role ∧
      s'.diagnostics = s.diagnostics ++ given j chain since := by
  induction since generalizing chain s with
  | nil => exact ⟨s, h, rfl, (List.append_nil _).symm⟩
  | cons action since ih =>
    have hne : action ≠ .clear j := fun h => hclear (h ▸ List.mem_cons_self)
    have hsince : .clear j ∉ since := fun h => hclear (List.mem_cons_of_mem _ h)
    obtain ⟨t, ht, hrole, hheld⟩ := diagnostics_act hne h
    obtain ⟨t', ht', hrole', hheld'⟩ := ih hsince ht
    refine ⟨t', ht', hrole'.trans hrole, ?_⟩
    rw [hheld', hheld, List.append_assoc]
    rfl

theorem acts_append (chain : Chain) (before since : List Action) :
    chain.acts (before ++ since) = (chain.acts before).acts since :=
  List.foldl_append

/-- A sink that was just cleared holds nothing. -/
theorem diagnostics_clear {before : List Action}
    (h : (chain.acts (before ++ [.clear j]))[j]? = some s) : s.diagnostics = [] := by
  rw [acts_append] at h
  have hact : (chain.acts before).acts [.clear j] = (chain.acts before).modifyAt j Sink.clear := rfl
  rw [hact, modifyAt, List.getElem?_modify_eq] at h
  obtain ⟨t, -, rfl⟩ := Option.map_eq_some_iff.mp h
  rfl

/-- **What reaches the sinks of a chain.** At any moment of a run, a diagnostic that is handed to
the sink at `i` is kept, once, by the sinks from `i` on down to which every sink lets it in and can
take it, and no other sink changes. It is refused exactly if it comes as far as a sink that can take
nothing, and then the sinks in front of the first such one have kept it. A sink that was cleared, or
held nothing when the run began, holds what it was given since, in order, and there is an error
among it exactly if errors are counted. -/
theorem diagnostics_reach_sinks (chain : Chain) (before : List Action) :
    let now := chain.acts before
    (∀ (i : Nat) (d : Diagnostic),
      let after := (now.act (.emit i d)).1
      (after.length = now.length ∧ ∀ j s, now[j]? = some s →
        after[j]? = some (if now.Handles i j d then s.keep d else s)) ∧
      ((now.act (.emit i d)).2 = true ↔ ∃ k, now.Blocks i k d) ∧
      ((now.act (.emit i d)).2 = true →
        ∃ k, IsLeast {k | now.Blocks i k d} k ∧ ∀ j, now.Handles i j d ↔ i ≤ j ∧ j < k)) ∧
    ∀ (j : Nat) (s : Sink) (since : List Action), now[j]? = some s → .clear j ∉ since →
      (before = [] ∧ s.diagnostics = [] ∨ ∃ earlier, before = earlier ++ [.clear j]) →
      ∃ s', (now.acts since)[j]? = some s' ∧ s'.role = s.role ∧
        s'.diagnostics = given j now since ∧
        (anyError s'.diagnostics = true ↔ 0 < errorCount s'.diagnostics) ∧
        (anyError s'.diagnostics = true ↔
          ∃ d ∈ given j now since, d.severity = .error ∨ d.severity = .fatal) := by
  intro now
  refine ⟨fun i d => ⟨⟨length_reportAt now i d, fun j s => getElem?_reportAt i d⟩,
    reportAt_refused_iff, exists_first_of_refused⟩, ?_⟩
  intro j s since hs hsince hbefore
  have hempty : s.diagnostics = [] := by
    rcases hbefore with ⟨-, hempty⟩ | ⟨earlier, rfl⟩
    · exact hempty
    · exact diagnostics_clear hs
  obtain ⟨s', hs', hrole, hheld⟩ := diagnostics_acts hsince hs
  rw [hempty, List.nil_append] at hheld
  refine ⟨s', hs', hrole, hheld, anyError_iff_errorCount _, ?_⟩
  rw [hheld]
  exact anyError_iff

/-- A debugging diagnostic that comes as far as an outline, and behind it one that the first sink
does not let in any more. -/
theorem diagnostics_reach_sinks_before_outline :
    let d : Diagnostic := ⟨.debug, ⟨1, 1⟩, "comment"⟩
    let e : Diagnostic := ⟨.fatal, ⟨2, 5⟩, "unknown character"⟩
    let chain : Chain := [.collector true, ⟨.logger, false, #[]⟩, ⟨.outline, true, #[]⟩]
    let before : List Action := [.emit 0 e, .setVerbose 1 true, .clear 0]
    let since : List Action := [.emit 0 d, .setVerbose 0 false, .emit 0 d, .emit 1 e, .emit 0 e]
    let now := chain.acts before
    ((now.act (.emit 0 d)).2 = true ∧
        ∃ k, IsLeast {k | now.Blocks 0 k d} k ∧ ∀ j, now.Handles 0 j d ↔ 0 ≤ j ∧ j < k) ∧
      (now[0]? = some (.collector true) ∧ .clear 0 ∉ since ∧
        ∃ earlier, before = earlier ++ [.clear 0]) ∧
      ∃ s', (now.acts since)[0]? = some s' ∧ s'.diagnostics = [d, e] := by
  intro d e chain before since now
  obtain ⟨hemit, hrun⟩ := diagnostics_reach_sinks chain before
  have hrefused : (now.act (.emit 0 d)).2 = true := rfl
  have hclear : .clear 0 ∉ since := by decide
  have hearlier : ∃ earlier, before = earlier ++ [.clear 0] :=
    ⟨[.emit 0 e, .setVerbose 1 true], rfl⟩
  obtain ⟨s', hs', -, hheld, -⟩ :=
    hrun 0 (.collector true) since rfl hclear (.inr hearlier)
  have hgiven : given 0 now since = [d, e] := by decide
  exact ⟨⟨hrefused, (hemit 0 d).2.2 hrefused⟩, ⟨rfl, hclear, hearlier⟩, s', hs',
    hheld.trans hgiven⟩

end Chain

end CLexer
