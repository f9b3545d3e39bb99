import CLexer.Proofs.Seek

/-!
# Iterators that share a scanner

Any number of scanners, any number of iterators on each of them, and requests for tokens in any
order. An iterator has no part of the scan to itself: it asks its scanner for the next token and
passes it on. So the iterators on one scanner take its tokens from each other, but between them they
get what one of them would have got alone, in the same order, and the same is reported meanwhile.

One number tells all about a scanner, how often it was asked for a token (`Session.Serves`). A
request makes it one more or leaves it alone, and what has been handed out, whether an iterator has
seen the end and what the collector has can be read off it.
-/

set_option autoImplicit false

namespace CLexer

open Event

/-! ## Schedules -/

/-- What can be asked of a session: a new iterator on a scanner, or a token of an iterator. -/
inductive Request where
  | iterate (seat : Nat)
  | pull (iterator : Nat)
deriving DecidableEq

/-- The answer of an iterator: a token, or none once there are no more. -/
abbrev Reply := Except Fault (Option Token)

/-- What came of a list of requests. -/
structure Schedule where
  session : Session
  /-- The replies in their order, each with the number of its scanner. -/
  replies : List (Nat × Reply)

namespace Session

/-- Goes through requests in their order. Those to iterators that do not exist have no reply. -/
def play (s : Session) : List Request → Schedule
  | [] => ⟨s, []⟩
  | .iterate seat :: rest => (s.iterate seat).play rest
  | .pull i :: rest =>
      match s.iterators[i]?, s.pull i with
      | some (seat, _), some answer =>
          let after := answer.session.play rest
          { after with replies := (seat, answer.result) :: after.replies }
      | _, _ => s.play rest

/-- What the collector of a scanner has. -/
def collected (s : Session) (seat : Nat) : Option (List Diagnostic) :=
  s.seats[seat]?.map (·.collector.diagnostics)

end Session

/-- The replies of the iterators on one scanner. -/
def Schedule.repliesOf (r : Schedule) (seat : Nat) : List Reply :=
  r.replies.filterMap fun e => if e.1 = seat then some e.2 else none

def Reply.token? : Reply → Option Token
  | .ok t => t
  | .error _ => none

/-- A session of one scanner with one iterator that is asked `n` times. -/
def Session.alone (seat : Seat) (n : Nat) : Schedule :=
  Session.play ⟨[seat], []⟩ (.iterate 0 :: List.replicate n (.pull 0))

/-! ## One request -/

variable {s : Session} {k i : Nat} {start seat : Seat} {ts : List Token} {kept : List Diagnostic}

/-- Whoever asks, as long as it neither owes a dot nor is through: the scanner moves on by a token.
-/
theorem Iterator.pull_of_open {it : Iterator} (hdot : it.owesDot = false)
    (hopen : it.finished = false) (h : seat.Promises ts kept) :
    let p := it.pull seat.context
    (⟨p.context, Session.collect seat.collector (reports p.events)⟩ : Seat) = seat.forward ∧
      p.result = .ok ts.head? ∧ p.iterator.owesDot = false ∧
      (p.iterator.finished = true ↔ ts = []) := by
  have hfound := h.forward.1
  have hopening : reports (it.opening seat.context.cursor.source) = [] := by
    unfold Iterator.opening
    split <;> rfl
  have hnext : it.pull seat.context = it.pullNext seat.context := by
    rw [Iterator.pull, hopen, hdot]
    rfl
  rw [hnext]
  unfold Iterator.pullNext Seat.forward
  dsimp only
  rw [hfound]
  cases ts with
  | nil =>
    refine ⟨?_, rfl, hdot, iff_of_true rfl rfl⟩
    simp only [List.head?_nil, Option.map_none, reports_append, hopening, List.nil_append]
    rw [show reports [.note _] = [] from rfl, List.append_nil]
  | cons t ts =>
    refine ⟨?_, rfl, rfl, iff_of_false ?_ (List.cons_ne_nil t ts)⟩
    · simp only [List.head?_cons, Option.map_some, reports_append, hopening, List.nil_append]
      rw [show reports [.token t] = [] from rfl, List.append_nil]
    · show ¬ it.finished = true
      rw [hopen]
      exact Bool.false_ne_true

/-- A request reaches one scanner and one iterator. -/
theorem Session.pull_cases {a : Session.Answer} (h : s.pull i = some a) :
    ∃ number it seat, s.iterators[i]? = some (number, it) ∧ s.seats[number]? = some seat ∧
      let p := it.pull seat.context
      a.result = p.result ∧
        a.session.seats =
          s.seats.set number ⟨p.context, Session.collect seat.collector (reports p.events)⟩ ∧
        a.session.iterators = s.iterators.set i (number, p.iterator) := by
  unfold Session.pull at h
  obtain ⟨⟨number, it⟩, hit, h⟩ := Option.bind_eq_some_iff.mp h
  obtain ⟨seat, hseat, h⟩ := Option.bind_eq_some_iff.mp h
  cases h
  exact ⟨number, it, seat, hit, hseat, rfl, rfl, rfl⟩

/-- **A request to an iterator of another scanner changes nothing here**, neither the scanner nor
the iterators on it. -/
theorem Session.pull_other {a : Session.Answer} (h : s.pull i = some a)
    (hother : ∀ it, s.iterators[i]? ≠ some (k, it)) :
    a.session.seats[k]? = s.seats[k]? ∧
      ∀ (j : Nat) (it : Iterator),
        a.session.iterators[j]? = some (k, it) ↔ s.iterators[j]? = some (k, it) := by
  obtain ⟨number, it, seat, hit, hseat, -, hseats, hiterators⟩ := Session.pull_cases h
  have hne : number ≠ k := by
    rintro rfl
    exact hother it hit
  refine ⟨?_, fun j it' => ?_⟩
  · rw [hseats, List.getElem?_set_ne hne]
  · rw [hiterators]
    by_cases hj : i = j
    · subst hj
      have hlt : i < s.iterators.length := (List.getElem?_eq_some_iff.mp hit).1
      rw [List.getElem?_set_self hlt, hit]
      simp [hne]
    · rw [List.getElem?_set_ne hj]

/-! ## The invariant -/

/-- The scanner `k`, which began as `start` and had the tokens `ts` to hand out, has been asked for
one `m` times, and these are the replies. -/
structure Session.Serves (s : Session) (k : Nat) (start : Seat) (ts : List Token)
    (replies : List Reply) (m : Nat) : Prop where
  seat : s.seats[k]? = some (Seat.forward^[m] start)
  iterators : ∀ (j : Nat) (it : Iterator), s.iterators[j]? = some (k, it) →
    it.owesDot = false ∧ (it.finished = true → ts.length < m)
  good : ∀ r ∈ replies, ∃ t, r = .ok t
  tokens : replies.filterMap Reply.token? = ts.take m
  ended : .ok none ∈ replies ↔ ts.length < m

variable {replies : List Reply} {m : Nat}

theorem Session.Serves.iterate (h : s.Serves k start ts replies m) (seat : Nat) :
    (s.iterate seat).Serves k start ts replies m where
  seat := h.seat
  iterators := by
    intro j it hit
    rcases Nat.lt_or_ge j s.iterators.length with hj | hj
    · rw [Session.iterate, List.getElem?_append_left hj] at hit
      exact h.iterators j it hit
    · -- The new iterator owes nothing and has not begun.
      have hnew : ([(seat, {})] : List (Nat × Iterator))[j - s.iterators.length]? =
          some (k, it) := by
        rw [← List.getElem?_append_right hj]
        exact hit
      have hmem := List.mem_of_getElem? hnew
      cases List.mem_singleton.mp hmem
      exact ⟨rfl, fun hfinished => by cases hfinished⟩
  good := h.good
  tokens := h.tokens
  ended := h.ended

theorem Session.Serves.set_iterator {it : Iterator} {m' : Nat} (h : s.Serves k start ts replies m)
    (hm : m ≤ m') (hi : i < s.iterators.length) (hdot : it.owesDot = false)
    (hfinished : it.finished = true → ts.length < m') :
    ∀ (j : Nat) (jt : Iterator), (s.iterators.set i (k, it))[j]? = some (k, jt) →
      jt.owesDot = false ∧ (jt.finished = true → ts.length < m') := by
  intro j jt hjt
  by_cases hj : i = j
  · subst hj
    rw [List.getElem?_set_self hi] at hjt
    cases hjt
    exact ⟨hdot, hfinished⟩
  · rw [List.getElem?_set_ne hj] at hjt
    obtain ⟨hjdot, hjfinished⟩ := h.iterators j jt hjt
    exact ⟨hjdot, fun hend => Nat.lt_of_lt_of_le (hjfinished hend) hm⟩

/-- A request to one of the iterators of the scanner. -/
theorem Session.Serves.pull_own {a : Session.Answer} {it : Iterator}
    (h : s.Serves k start ts replies m) (hstart : start.Promises ts kept)
    (ha : s.pull i = some a) (hit : s.iterators[i]? = some (k, it)) :
    ∃ m', a.session.Serves k start ts (replies ++ [a.result]) m' := by
  obtain ⟨number, it', seat, hit', hseat, hresult, hseats, hiterators⟩ := Session.pull_cases ha
  obtain ⟨rfl, rfl⟩ := Prod.mk.inj (Option.some_inj.mp (hit.symm.trans hit'))
  obtain rfl : Seat.forward^[m] start = seat := Option.some_inj.mp (h.seat.symm.trans hseat)
  obtain ⟨hdot, hfinished⟩ := h.iterators i it hit
  have hk : k < s.seats.length := (List.getElem?_eq_some_iff.mp hseat).1
  have hi : i < s.iterators.length := (List.getElem?_eq_some_iff.mp hit).1
  have hgood : ∀ t, a.result = .ok t → ∀ r ∈ replies ++ [a.result], ∃ t, r = .ok t := by
    intro t ht r hr
    rcases List.mem_append.mp hr with hr | hr
    · exact h.good r hr
    · exact ⟨t, (List.mem_singleton.mp hr).trans ht⟩
  cases hopen : it.finished with
  | true =>
    -- It has seen the end, says so again, and does not ask the scanner.
    have hpull : it.pull (Seat.forward^[m] start).context =
        ⟨(Seat.forward^[m] start).context, it, [], .ok none⟩ := by
      rw [Iterator.pull, hopen]
      rfl
    rw [hpull] at hresult hseats hiterators
    have hend := hfinished hopen
    refine ⟨m, ?_, ?_, hgood none hresult, ?_, ?_⟩
    · rw [hseats, List.getElem?_set_self hk]
      rfl
    · rw [hiterators]
      exact h.set_iterator (Nat.le_refl m) hi hdot hfinished
    · rw [hresult, List.filterMap_append, h.tokens]
      exact List.append_nil _
    · rw [hresult]
      exact iff_of_true (List.mem_append_right replies List.mem_cons_self) hend
  | false =>
    obtain ⟨hforward, hreply, hdot', hfinished'⟩ :=
      Iterator.pull_of_open hdot hopen (hstart.forwards m)
    rw [hforward] at hseats
    rw [hreply, List.head?_drop] at hresult
    have hlast : ts[m]? = none ↔ ts.length ≤ m := List.getElem?_eq_none_iff
    refine ⟨m + 1, ?_, ?_, hgood _ hresult, ?_, ?_⟩
    · rw [hseats, List.getElem?_set_self hk, Function.iterate_succ_apply']
    · rw [hiterators]
      refine h.set_iterator (Nat.le_succ m) hi hdot' fun hend => ?_
      exact Nat.lt_succ_of_le (List.drop_eq_nil_iff.mp (hfinished'.mp hend))
    · rw [hresult, List.filterMap_append, h.tokens, List.take_add_one]
      cases ts[m]? <;> rfl
    · rw [hresult, List.mem_append, h.ended, List.mem_singleton, Except.ok.injEq, eq_comm, hlast]
      omega

/-- A request to an iterator of another scanner. -/
theorem Session.Serves.pull_other {a : Session.Answer} (h : s.Serves k start ts replies m)
    (ha : s.pull i = some a) (hother : ∀ it, s.iterators[i]? ≠ some (k, it)) :
    a.session.Serves k start ts replies m := by
  obtain ⟨hseat, hiterators⟩ := Session.pull_other ha hother
  exact ⟨hseat.trans h.seat, fun j it hit => h.iterators j it ((hiterators j it).mp hit), h.good,
    h.tokens, h.ended⟩

/-- **Through any requests, one number tells all about a scanner.** -/
theorem Session.Serves.play (requests : List Request) (h : s.Serves k start ts replies m)
    (hstart : start.Promises ts kept) :
    ∃ m', (s.play requests).session.Serves k start ts
      (replies ++ (s.play requests).repliesOf k) m' := by
  induction requests generalizing s replies m with
  | nil =>
    refine ⟨m, ?_⟩
    rw [show (s.play []).repliesOf k = [] from rfl, List.append_nil]
    exact h
  | cons request rest ih =>
    cases request with
    | iterate seat => exact ih (h.iterate seat)
    | pull i =>
      unfold Session.play
      split
      · rename_i number it answer hit ha
        by_cases hnumber : number = k
        · subst hnumber
          obtain ⟨m', h'⟩ := h.pull_own hstart ha hit
          obtain ⟨m'', h''⟩ := ih h'
          refine ⟨m'', ?_⟩
          simpa [Schedule.repliesOf] using h''
        · have hother : ∀ it, s.iterators[i]? ≠ some (k, it) := by
            intro it' hit'
            exact hnumber (Prod.mk.inj (Option.some_inj.mp (hit.symm.trans hit'))).1
          obtain ⟨m'', h''⟩ := ih (h.pull_other ha hother)
          refine ⟨m'', ?_⟩
          simpa [Schedule.repliesOf, hnumber] using h''
      · exact ih h

/-! ## Against one scan -/

/-- A single iterator moves its scanner on each time, as long as there are tokens. -/
theorem Session.play_pulls {it : Iterator} {n : Nat} (hdot : it.owesDot = false)
    (hopen : it.finished = false) (h : seat.Promises ts kept) (hn : n ≤ ts.length) :
    (Session.play ⟨[seat], [(0, it)]⟩ (List.replicate n (.pull 0))).session.seats[0]? =
      some (Seat.forward^[n] seat) := by
  induction n generalizing seat it ts with
  | zero => rfl
  | succ n ih =>
    obtain ⟨hforward, -, hdot', hfinished⟩ := Iterator.pull_of_open hdot hopen h
    have hsome : ts ≠ [] := by
      rintro rfl
      exact absurd hn (Nat.not_succ_le_zero n)
    have hopen' : (it.pull seat.context).iterator.finished = false := by
      simpa using mt hfinished.mp hsome
    have hrest := ih hdot' hopen' h.forward.2.1 (by rw [List.length_tail]; omega)
    rw [← hforward] at hrest
    rw [Function.iterate_succ_apply, ← hforward]
    exact hrest

theorem Session.collected_alone (h : start.Promises ts kept) {n : Nat} (hn : n ≤ ts.length) :
    (Session.alone start n).session.collected 0 =
      some (Seat.forward^[n] start).collector.diagnostics := by
  have hseat := Session.play_pulls (show ({} : Iterator).owesDot = false from rfl) rfl h hn
  have halone : (Session.alone start n).session.seats[0]? = some (Seat.forward^[n] start) := hseat
  rw [Session.collected, halone]
  rfl

/-- **Iterators share the scan of their scanner.** Take a session in which the scanner `k` stands in
front of a text without dots in front of a line end, and go through any requests. The iterators of
the scanner never fail. The tokens they were given, in the order of the requests, are a start of
those of one uninterrupted scan, and all of them if one of the iterators has reported that there are
no more. The collector has what a single iterator would have reported after as many tokens, and
everything once there are no more. No request to an iterator of another scanner changes the scanner
or its iterators. As the requests are any, all this holds at every point of a longer session. -/
theorem iterators_share_scan (s : Session) (requests : List Request) {k : Nat} {text : List Char}
    {tables : Tables} {options : Options} (source : String)
    (hseat : s.seats[k]? = some (.ofText text tables options)) (hfresh : s.iterators = [])
    (htext : Unpaired text) :
    let whole := scanInput ⟨text, none⟩ tables options [.collector options.verbose] source
    let session := (s.play requests).session
    let replies := (s.play requests).repliesOf k
    let pulled := replies.filterMap Reply.token?
    let alone := Session.alone (.ofText text tables options) pulled.length
    whole.failure = none ∧
      (∀ r ∈ replies, ∃ t, r = .ok t) ∧
      pulled <+: whole.tokens ∧
      (.ok none ∈ replies → pulled = whole.tokens) ∧
      (.ok none ∉ replies → session.collected k = alone.session.collected 0) ∧
      (.ok none ∈ replies → session.collected k = some whole.kept) ∧
      ∀ i a, session.pull i = some a → (∀ it, session.iterators[i]? ≠ some (k, it)) →
        a.session.seats[k]? = session.seats[k]? ∧
          ∀ (j : Nat) (it : Iterator),
            a.session.iterators[j]? = some (k, it) ↔ session.iterators[j]? = some (k, it) := by
  intro whole session replies pulled alone
  have hstart := Seat.promises_ofText htext tables options source
  have hserves : s.Serves k (.ofText text tables options) whole.tokens [] 0 := by
    refine ⟨hseat, fun j it hit => ?_, fun r hr => ?_, rfl, ?_⟩
    · rw [hfresh] at hit
      cases hit
    · cases hr
    · exact iff_of_false List.not_mem_nil (Nat.not_lt_zero _)
  obtain ⟨m, hm⟩ := hserves.play requests hstart
  have hpulled : pulled = whole.tokens.take m := hm.tokens
  have hended : .ok none ∈ replies ↔ whole.tokens.length < m := hm.ended
  have hcollected : session.collected k =
      some (Seat.forward^[m] (Seat.ofText text tables options)).collector.diagnostics := by
    rw [Session.collected, hm.seat]
    rfl
  refine ⟨(scanInput_collector text tables options options.verbose source).1, hm.good, ?_, ?_, ?_,
    ?_, fun i a ha hother => Session.pull_other ha hother⟩
  · rw [hpulled]
    exact List.take_prefix m whole.tokens
  · intro hend
    rw [hpulled]
    exact List.take_of_length_le (Nat.le_of_lt (hended.mp hend))
  · intro hend
    have hle : m ≤ whole.tokens.length := Nat.le_of_not_lt (mt hended.mpr hend)
    have hlength : pulled.length = m := by
      rw [hpulled, List.length_take, Nat.min_eq_left hle]
    have halone : alone = Session.alone (.ofText text tables options) m := by
      rw [← hlength]
    rw [hcollected, halone, Session.collected_alone hstart hle]
  · intro hend
    rw [hcollected, hstart.all_kept (hended.mp hend)]

/-- Two iterators take turns on a text with half a number in it, and one on another scanner is asked
in between. -/
theorem iterators_share_scan_by_turns :
    let text := "a 0x b".toList
    let seats : List Seat := [.ofText text .standard {}, .ofText "/*".toList .standard {}]
    let requests : List Request :=
      [.iterate 0, .iterate 1, .iterate 0, .pull 0, .pull 1, .pull 2, .pull 0]
    let whole := scanInput ⟨text, none⟩ .standard {} [.collector false] "a.c"
    let schedule := Session.play ⟨seats, []⟩ requests
    Unpaired text ∧ .ok none ∈ schedule.repliesOf 0 ∧
      (schedule.repliesOf 0).filterMap Reply.token? = whole.tokens ∧
      schedule.session.collected 0 = some whole.kept := by
  intro text seats requests whole schedule
  have htext : Unpaired text := ⟨by decide +kernel, by decide +kernel⟩
  have hend : .ok none ∈ schedule.repliesOf 0 := by decide +kernel
  obtain ⟨-, -, -, hall, -, hkept, -⟩ :=
    iterators_share_scan ⟨seats, []⟩ requests "a.c" (k := 0) rfl rfl htext
  exact ⟨htext, hend, hall hend, hkept hend⟩

-- With two dots at the end of the text, one iterator sees the end while another still owes a dot.
example : .ok none ∈ (Session.play ⟨[.ofText ['.', '.'] .standard {}], []⟩
    [.iterate 0, .iterate 0, .pull 0, .pull 1]).repliesOf 0 := by decide +kernel

end CLexer
