import CLexer.Buffer
import CLexer.Cursor
import CLexer.Event
import CLexer.Options
import CLexer.Tables

/-!
# Scanning routines

A context is all that a scan holds: the cursor in the text, the buffer with the current lexeme,
the position at which the current token starts, and the tables and options, which never change.

A scanning routine, `Scan α`, takes a context to an outcome: the context afterwards, the events on
the way, and a value or the fault that stopped it. A fault leaves the context as it was at that
moment, so that whoever catches it can go on from there.

`Scan.NonGrowing` says of a routine that it leaves no more to be read than it found. It composes,
and it is what makes the loop of a scanner end.
-/

set_option autoImplicit false

namespace CLexer

/-- What a scan holds. -/
structure Context where
  cursor : Cursor
  buffer : Buffer
  /-- Where the current token starts. -/
  start : Position := ⟨1, 0⟩
  tables : Tables
  options : Options

namespace Context

/-- A context in front of a text. -/
def ofCursor (cursor : Cursor) (tables : Tables) (options : Options) : Context where
  cursor := cursor
  buffer := Buffer.empty options.capacity options.lexemeLimit
  tables := tables
  options := options

/-- How many characters a scanner can give back in a row: an ellipsis is told from two dots only
after two characters more. -/
def scannerDepth : Nat := 2

/-- A context for scanning a text from its start. -/
def ofText (text : List Char) (tables : Tables) (options : Options)
    (source : String := "<input>") : Context :=
  ofCursor { ahead := text, source, depth := scannerDepth } tables options

/-- The characters that are not read. -/
def unread (ctx : Context) : List Char := ctx.cursor.ahead

end Context

/-- What stops a scanning routine. -/
inductive Fault where
  /-- A character could not be given back. -/
  | pushback (cause : Cursor.PushbackCause) (location : Location)
  /-- The lexeme is longer than the buffer may get. -/
  | overflow (limit : Nat)
  /-- A token would have had no text. -/
  | emptyToken
deriving DecidableEq

/-- What comes of a scanning routine. -/
structure Outcome (α : Type) where
  context : Context
  events : List Event := []
  result : Except Fault α

/-- A scanning routine. -/
def Scan (α : Type) : Type := Context → Outcome α

namespace Scan

variable {α β : Type}

/-- One routine after another. The second is left out if the first one fails. -/
def andThen (m : Scan α) (f : α → Scan β) : Scan β := fun ctx =>
  match m ctx with
  | ⟨ctx', events, .ok a⟩ =>
      let o := f a ctx'
      { o with events := events ++ o.events }
  | ⟨ctx', events, .error e⟩ => ⟨ctx', events, .error e⟩

instance : Monad Scan where
  pure a := fun ctx => ⟨ctx, [], .ok a⟩
  bind := andThen

/-! ## Steps -/

def context : Scan Context := fun ctx => ⟨ctx, [], .ok ctx⟩

/-- Lets the outside see an event. -/
def announce (e : Event) : Scan Unit := fun ctx => ⟨ctx, [e], .ok ()⟩

def fail (e : Fault) : Scan α := fun ctx => ⟨ctx, [], .error e⟩

/-- Reads a character, or sees the end of the text. -/
def next : Scan (Option Char) := fun ctx =>
  let (c, cursor) := ctx.cursor.next
  let events := if c.isNone && !ctx.cursor.ended then [Event.textEnd] else []
  ⟨{ ctx with cursor }, events, .ok c⟩

/-- Reads `n` characters that are known to be there. -/
def advance (n : Nat) : Scan Unit := fun ctx =>
  ⟨{ ctx with cursor := ctx.cursor.advance n }, [], .ok ()⟩

def pushback : Scan Unit := fun ctx =>
  match ctx.cursor.pushback with
  | .ok cursor => ⟨{ ctx with cursor }, [], .ok ()⟩
  | .error cause => ⟨ctx, [], .error (.pushback cause ctx.cursor.location)⟩

/-- Gives back a character that turned out not to belong to a lexeme. A line feed is a blank to
whoever reads on, so it can stay read, like the end of the text. -/
def giveBack (c : Option Char) : Scan Unit :=
  if c = none ∨ c = some '\n' then pure () else pushback

/-- Reads one character and gives it back. -/
def lookAhead : Scan Unit := do giveBack (← next)

/-- Starts a token at the character that was read last. -/
def begin : Scan Unit := fun ctx =>
  ⟨{ ctx with buffer := ctx.buffer.reset, start := ctx.cursor.position }, [], .ok ()⟩

/-- Makes a token that starts where the current one does. -/
def tokenOf (kind : TokenKind) (text : String) : Scan Token := fun ctx =>
  match Token.make? kind text ctx.start with
  | some t => ⟨ctx, [.note (.scanned t)], .ok t⟩
  | none => ⟨ctx, [], .error .emptyToken⟩

def tokenOfBuffer (kind : TokenKind) : Scan Token := do
  tokenOf kind (← context).buffer.text

/-- Reports a diagnostic on the current token. -/
def report (severity : Severity) (message : String) : Scan Unit := do
  announce (.report ⟨severity, (← context).start, message⟩)

/-- The note on a buffer that gets more room. -/
def growthNote (g : Buffer.Growth) : Event := .note (.grown g.before g.after)

/-- Puts characters into the buffer up to the first one that finds no room. What is left over
starts with that one. -/
def fill (cs : List Char) : Scan (List Char) := fun ctx =>
  let (buffer, leftOver) := ctx.buffer.fill cs
  ⟨{ ctx with buffer }, (ctx.buffer.growths cs).map growthNote, .ok leftOver⟩

/-- Puts a character into the buffer, and says whether there was room for it. -/
def put (c : Char) : Scan Bool := fun ctx =>
  if ctx.buffer.isFull then ⟨ctx, [], .ok false⟩
  else
    let notes := ctx.buffer.growth?.toList.map growthNote
    ⟨{ ctx with buffer := ctx.buffer.push c }, notes, .ok true⟩

/-- Puts characters into the buffer one by one up to the first that finds no room, and says whether
there was room for all of them. -/
def putAll : List Char → Scan Bool
  | [] => return true
  | c :: cs => do if ← put c then putAll cs else return false

def failFull : Scan α := do fail (.overflow (← context).buffer.overflow.limit)

/-- Puts characters into the buffer, which has to have room for all of them. -/
def store (cs : List Char) : Scan Unit := do
  if (← fill cs).isEmpty then pure () else failFull

/-- Puts characters into the buffer while it holds fewer than `most`. -/
def storeCapped (most : Nat) (cs : List Char) : Scan Unit := do
  store (cs.take (most - (← context).buffer.size))

/-- Ends a lexeme of `n` characters, of which `hand` is the first and was read before: reads the
others, and gives back the character behind them. If there are none, `hand` itself is given
back. -/
def settle (hand : Char) : Nat → Scan Unit
  | 0 => giveBack (some hand)
  | n + 1 => do
      advance n
      lookAhead

/-! ## Running single steps -/

section Runs

variable {ctx : Context} {m : Scan α} {f g : α → Scan β} {c : Char} {rest : List Char}

theorem next_then_of_nil (hu : ctx.unread = []) (k : Option Char → Scan β) :
    (next >>= k) ctx = (do discard next; k none) ctx := by
  have hnone : ctx.cursor.next.1 = none := Cursor.next_eq_none_iff.mpr hu
  show andThen next k ctx = andThen (andThen next fun _ => pure ()) (fun _ => k none) ctx
  simp [andThen, next, hnone, pure]

/-- A character that is ahead is read without an event. -/
theorem next_then_of_cons (hu : ctx.unread = c :: rest) (k : Option Char → Scan β) :
    (next >>= k) ctx = k (some c) { ctx with cursor := ctx.cursor.next.2 } := by
  have hsome : ctx.cursor.next.1 = some c := by
    rw [Cursor.fst_next]
    exact congrArg List.head? hu
  show andThen next k ctx = _
  simp [andThen, next, hsome]

theorem read_of_cons (hu : ctx.unread = c :: rest) (m : Scan β) :
    (do discard next; m) ctx = m { ctx with cursor := ctx.cursor.next.2 } := by
  have hread : (do discard next; m) ctx = (next >>= fun _ => m) ctx := by
    show andThen (andThen next fun _ => pure ()) (fun _ => m) ctx = andThen next (fun _ => m) ctx
    simp [andThen, next, pure]
  rw [hread, next_then_of_cons hu]

theorem unread_read (hu : ctx.unread = c :: rest) :
    ({ ctx with cursor := ctx.cursor.next.2 } : Context).unread = rest := by
  rw [Context.unread, Cursor.ahead_next]
  exact congrArg List.tail hu

theorem discard_next_pure : (do discard next; pure ()) = discard next := by
  funext ctx
  show andThen (andThen next fun _ => pure ()) (fun _ => pure ()) ctx =
    andThen next (fun _ => pure ()) ctx
  simp [andThen, next, pure]

theorem put_eq_putAll (c : Char) : put c = putAll [c] := by
  funext ctx
  show put c ctx = andThen (put c) (fun stored => if stored then pure true else pure false) ctx
  unfold andThen put
  split <;> simp [pure]

/-- Putting characters one by one is filling the buffer with them. -/
theorem putAll_eq_fill (cs : List Char) : putAll cs = do return (← fill cs).isEmpty := by
  funext ctx
  induction cs generalizing ctx with
  | nil => rfl
  | cons c cs ih =>
    show andThen (put c) (fun stored => if stored then putAll cs else pure false) ctx =
      andThen (fill (c :: cs)) (fun left => pure left.isEmpty) ctx
    cases hfull : ctx.buffer.isFull with
    | true => simp [andThen, put, fill, Buffer.fill, Buffer.growths, hfull, pure]
    | false =>
      simp [andThen, put, fill, Buffer.fill, Buffer.growths, hfull, pure, bind, ih]

theorem bind_congr_of_run
    (h : ∀ ctx' es a, m ctx = ⟨ctx', es, .ok a⟩ → f a ctx' = g a ctx') :
    (m >>= f) ctx = (m >>= g) ctx := by
  show andThen m f ctx = andThen m g ctx
  unfold andThen
  rcases hm : m ctx with ⟨ctx', es, e | a⟩
  · rfl
  · have hrest := h ctx' es a hm
    dsimp only
    rw [hrest]

/-- Storing leaves what is ahead as it is. -/
theorem put_congr {cs : List Char} {m m' k k' : Scan β}
    (hm : ∀ ctx', ctx'.unread = ctx.unread → m ctx' = k ctx')
    (hm' : ∀ ctx', ctx'.unread = ctx.unread → m' ctx' = k' ctx') :
    (do if ← putAll cs then m else m') ctx = (do if ← putAll cs then k else k') ctx := by
  apply bind_congr_of_run
  intro ctx' es stored hrun
  have hunread : ctx'.unread = ctx.unread := by
    have hput : (putAll cs ctx).context.unread = ctx.unread := by
      rw [putAll_eq_fill]
      rfl
    rwa [hrun] at hput
  cases stored with
  | true => exact hm ctx' hunread
  | false => exact hm' ctx' hunread

end Runs

/-! ## Routines that leave no more to be read -/

/-- The routine leaves no more to be read than it found. -/
def NonGrowing (m : Scan α) : Prop :=
  ∀ ctx, (m ctx).context.unread.length ≤ ctx.unread.length

theorem NonGrowing.bind {m : Scan α} {f : α → Scan β} (hm : NonGrowing m)
    (hf : ∀ a, NonGrowing (f a)) : NonGrowing (m >>= f) := by
  intro ctx
  have h₁ := hm ctx
  show (andThen m f ctx).context.unread.length ≤ _
  unfold andThen
  split
  · rename_i ctx' events a heq
    rw [heq] at h₁
    exact Nat.le_trans (hf a ctx') h₁
  · rename_i ctx' events e heq
    rw [heq] at h₁
    exact h₁

theorem NonGrowing.pure (a : α) : NonGrowing (pure a : Scan α) := fun _ => Nat.le_refl _

theorem NonGrowing.context : NonGrowing context := fun _ => Nat.le_refl _

theorem NonGrowing.announce (e : Event) : NonGrowing (announce e) := fun _ => Nat.le_refl _

theorem NonGrowing.fail (e : Fault) : NonGrowing (fail e : Scan α) := fun _ => Nat.le_refl _

theorem NonGrowing.begin : NonGrowing begin := fun _ => Nat.le_refl _

theorem NonGrowing.next : NonGrowing next := by
  intro ctx
  simp [Scan.next, Context.unread]

theorem NonGrowing.discardNext : NonGrowing (discard Scan.next) := .bind .next fun _ => .pure _

theorem NonGrowing.advance (n : Nat) : NonGrowing (advance n) := by
  intro ctx
  simp [Scan.advance, Context.unread]

theorem NonGrowing.tokenOf (kind : TokenKind) (text : String) :
    NonGrowing (tokenOf kind text) := by
  intro ctx
  unfold Scan.tokenOf
  split <;> exact Nat.le_refl _

theorem NonGrowing.fill (cs : List Char) : NonGrowing (fill cs) := fun _ => Nat.le_refl _

theorem NonGrowing.putAll (cs : List Char) : NonGrowing (putAll cs) := by
  rw [putAll_eq_fill]
  exact .bind (.fill _) fun _ => .pure _

theorem NonGrowing.put (c : Char) : NonGrowing (put c) := by
  rw [put_eq_putAll]
  exact .putAll [c]

theorem NonGrowing.tokenOfBuffer (kind : TokenKind) : NonGrowing (tokenOfBuffer kind) :=
  .bind .context fun _ => .tokenOf _ _

theorem NonGrowing.report (severity : Severity) (message : String) :
    NonGrowing (report severity message) :=
  .bind .context fun _ => .announce _

theorem NonGrowing.failFull : NonGrowing (failFull : Scan α) :=
  .bind .context fun _ => .fail _

theorem NonGrowing.store (cs : List Char) : NonGrowing (store cs) := by
  refine .bind (.fill cs) fun rest => ?_
  split
  · exact .pure _
  · exact .failFull

theorem NonGrowing.storeCapped (most : Nat) (cs : List Char) :
    NonGrowing (storeCapped most cs) :=
  .bind .context fun _ => .store _

/-- A character that was just read can be given back without leaving more than before. -/
theorem NonGrowing.lookAhead : NonGrowing lookAhead := by
  intro ctx
  show (andThen Scan.next giveBack ctx).context.unread.length ≤ _
  simp only [andThen, Scan.next, Scan.giveBack]
  split
  · simp [Pure.pure, Context.unread]
  · rename_i h
    cases hc : ctx.cursor.ahead with
    | nil => exact absurd (.inl (Cursor.next_eq_none_iff.mpr hc)) h
    | cons c rest =>
      unfold Scan.pushback
      split
      · rename_i cursor hp
        obtain ⟨m, older, _, ha⟩ := Cursor.ahead_pushback hp
        simp [Context.unread, ha, hc]
      · simp [Context.unread]

/-- A routine that looks at the context first may depend on it. -/
theorem NonGrowing.ofContext {f : Context → Scan α}
    (h : ∀ ctx, (f ctx ctx).context.unread.length ≤ ctx.unread.length) :
    NonGrowing (Scan.context >>= f) := h

/-- The routine leaves at most `k` characters to be read if it finds at most `j`. -/
def Leaves (j k : Nat) (m : Scan α) : Prop :=
  ∀ ctx, ctx.unread.length ≤ j → (m ctx).context.unread.length ≤ k

theorem NonGrowing.leaves {m : Scan α} (h : NonGrowing m) (n : Nat) : Leaves n n m :=
  fun ctx hn => Nat.le_trans (h ctx) hn

theorem Leaves.bind {j k l : Nat} {m : Scan α} {f : α → Scan β} (hm : Leaves j k m)
    (hf : ∀ a, Leaves k l (f a)) (hkl : k ≤ l) : Leaves j l (m >>= f) := by
  intro ctx hj
  have h₁ := hm ctx hj
  show (andThen m f ctx).context.unread.length ≤ _
  unfold andThen
  split
  · rename_i ctx' events a heq
    rw [heq] at h₁
    exact hf a ctx' h₁
  · rename_i ctx' events e heq
    rw [heq] at h₁
    exact Nat.le_trans h₁ hkl

theorem Leaves.advance (n k : Nat) : Leaves (k + n) k (advance n) := by
  intro ctx h
  simp only [Scan.advance, Context.unread, Cursor.ahead_advance, List.length_drop] at h ⊢
  omega

theorem Leaves.pushback (k : Nat) : Leaves k (k + 1) pushback := by
  intro ctx h
  unfold Scan.pushback
  split
  · rename_i cursor hp
    obtain ⟨m, older, _, ha⟩ := Cursor.ahead_pushback hp
    simp only [Context.unread, ha, List.length_cons] at h ⊢
    omega
  · exact Nat.le_succ_of_le h

theorem NonGrowing.settle (hand : Char) (n : Nat) : NonGrowing (settle hand (n + 1)) :=
  .bind (.advance n) fun _ => .lookAhead

end Scan

end CLexer
