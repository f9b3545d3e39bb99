import CLexer.Proofs.LongestMatch
import CLexer.Proofs.Scan.Punctuation
import CLexer.Proofs.WellFormed

/-!
# Words that are cut off

Of a word or of the name of a directive only so many characters are kept as the options allow. That
is all the limit does. The whole run of characters is read in any case, so that the cursor goes on
from the same place under any two limits. The kind is looked up by what is kept, and a text that is
longer than every entry of a table cannot be one of them, cut off or not: if the limit is beyond all
entries, the answer is the one for the whole word.
-/

set_option autoImplicit false

namespace CLexer

open CLexer.Text CLexer.Lexeme

/-! ## Entries that are never cut off -/

/-- Every word of the tables is shorter than this. -/
structure Tables.ShorterThan (tables : Tables) (limit : Nat) : Prop where
  keywords : ∀ w ∈ tables.keywords, w.toList.length < limit
  sizeof : Scan.sizeofWord.toList.length < limit
  directives : ∀ d ∈ tables.directives, d.toList.length < limit

theorem ofList_take_eq_iff {entry : String} {limit : Nat} (h : entry.toList.length < limit)
    (text : List Char) : String.ofList (text.take limit) = entry ↔ String.ofList text = entry := by
  by_cases hlength : text.length ≤ limit
  · rw [List.take_of_length_le hlength]
  · -- What is cut off has the length of the limit, which no entry has.
    have hne : ∀ kept : List Char, limit ≤ kept.length → String.ofList kept ≠ entry := by
      rintro kept hkept rfl
      rw [String.toList_ofList] at h
      omega
    have hkept : limit ≤ (text.take limit).length := by
      rw [List.length_take]
      omega
    exact iff_of_false (hne _ hkept) (hne _ (by omega))

theorem ofList_take_mem_iff {entries : List String} {limit : Nat}
    (h : ∀ entry ∈ entries, entry.toList.length < limit) (text : List Char) :
    String.ofList (text.take limit) ∈ entries ↔ String.ofList text ∈ entries := by
  constructor <;> intro hmem
  · rwa [← (ofList_take_eq_iff (h _ hmem) text).mp rfl] at hmem
  · rwa [← (ofList_take_eq_iff (h _ hmem) text).mpr rfl] at hmem

/-- The word is called this kind. -/
structure Tables.Names (tables : Tables) (word : String) (kind : TokenKind) : Prop where
  keyword : kind = .keyword ↔ word ∈ tables.keywords ∧ word ≠ Scan.sizeofWord
  operator : kind = .operator ↔ word = Scan.sizeofWord
  identifier : kind = .identifier ↔ word ∉ tables.keywords ∧ word ≠ Scan.sizeofWord

theorem Tables.names_wordKind (tables : Tables) (word : String) :
    tables.Names word (Scan.wordKind tables word) := by
  unfold Scan.wordKind
  by_cases hsizeof : word = Scan.sizeofWord
  · rw [if_pos hsizeof]
    constructor <;> simp [hsizeof]
  rw [if_neg hsizeof]
  by_cases hkeyword : word ∈ tables.keywords
  · rw [if_pos (Tables.isKeyword_iff.mpr hkeyword)]
    constructor <;> simp [hsizeof, hkeyword]
  · rw [if_neg (mt Tables.isKeyword_iff.mp hkeyword)]
    constructor <;> simp [hsizeof, hkeyword]

theorem Tables.ShorterThan.wordKind_take {tables : Tables} {limit : Nat}
    (h : tables.ShorterThan limit) (word : List Char) :
    Scan.wordKind tables (String.ofList (word.take limit)) =
      Scan.wordKind tables (String.ofList word) := by
  unfold Scan.wordKind
  simp only [ofList_take_eq_iff h.sizeof, Tables.isKeyword_iff, ofList_take_mem_iff h.keywords]

/-! ## Runs of characters -/

/-- Is every one of the characters in the class? -/
def AllIn (p : Char → Bool) (run : List Char) : Prop := ∀ c ∈ run, p c = true

theorem longestPrefix_takeWhile (p : Char → Bool) (text : List Char) :
    LongestPrefix (AllIn p) text (text.takeWhile p) where
  isPrefix := List.takeWhile_prefix p
  holds := fun _ hc => List.mem_takeWhile_imp hc
  longest := by
    rintro other ⟨behind, rfl⟩ hall
    rw [List.takeWhile_append_of_pos hall, List.length_append]
    omega

namespace Scan

variable {α β : Type} {ctx : Context} {m : Scan α} {a : α} {held kept : List Char} {n : Nat}

/-! ## Where the cursor goes -/

/-- A look at the next character moves the cursor in a way that the cursor alone decides. -/
theorem cursor_lookAhead_congr {ctx' : Context} (h : ctx'.cursor = ctx.cursor) :
    (lookAhead ctx').context.cursor = (lookAhead ctx).context.cursor := by
  show (andThen next giveBack ctx').context.cursor = (andThen next giveBack ctx).context.cursor
  simp only [andThen, next, giveBack, h]
  split
  · rfl
  · unfold pushback
    dsimp only
    cases ctx.cursor.next.2.pushback <;> rfl

/-- Nothing that the routine does touches the context, but that it stores `kept`, then reads `n`
characters and looks at the next one. -/
def ReadsRun (m : Scan α) (ctx : Context) (kept : List Char) (n : Nat) : Prop :=
  ∃ ctx' : Context, ctx'.cursor = ctx.cursor ∧ ctx'.held = kept ∧
    (m ctx).context = ((do advance n; lookAhead : Scan Unit) ctx').context

theorem ReadsRun.held_eq (h : ReadsRun m ctx kept n) : (m ctx).context.held = kept := by
  obtain ⟨ctx', -, hheld, hrun⟩ := h
  rw [hrun, (Ends.advance_then_lookAhead ctx' n).held_eq, hheld]

/-- Reading equally many characters from the same place leads to the same place, whatever is stored. -/
theorem ReadsRun.cursor_eq {ctx' : Context} {kept' : List Char} (h : ReadsRun m ctx kept n)
    (h' : ReadsRun m ctx' kept' n) (hcursor : ctx'.cursor = ctx.cursor) :
    (m ctx').context.cursor = (m ctx).context.cursor := by
  obtain ⟨ctx₁, hcursor₁, -, hrun⟩ := h
  obtain ⟨ctx₂, hcursor₂, -, hrun'⟩ := h'
  rw [hrun, hrun', context_advance, context_advance]
  apply cursor_lookAhead_congr
  dsimp only
  rw [hcursor₁, hcursor₂, hcursor]

/-- What is stored first is stored where the cursor stands. -/
theorem Ends.exists_stored (h : Ends m ctx a [] held []) (hkeeps : Keeps Context.cursor m) :
    ∃ ctx' es, m ctx = ⟨ctx', es, .ok a⟩ ∧ ctx'.cursor = ctx.cursor ∧ ctx'.held = held ∧
      ctx.Moves [] ctx' := by
  obtain ⟨ctx', es, hrun, hmoves, hheld, -⟩ := h
  have hcursor := hkeeps ctx
  rw [hrun] at hcursor
  exact ⟨ctx', es, hrun, hcursor, hheld, hmoves⟩

theorem readsRun_word {c : Char} (hb : ctx.Bounded) (hheld : ctx.held = [])
    (hc : isWordChar c = true) :
    ReadsRun (word c) ctx ((c :: Lexeme.word ctx.unread).take ctx.options.wordLimit)
      (Lexeme.word ctx.unread).length := by
  have hstore := Ends.storeWord hb hheld (c :: Lexeme.word ctx.unread)
  obtain ⟨ctx₁, es, hrun, hcursor, hheld₁, -⟩ := hstore.exists_stored (.storeCapped _ _)
  refine ⟨ctx₁, hcursor, hheld₁, ?_⟩
  unfold Scan.word
  rw [context_ofContext, Lexeme.word_cons hc, context_bind hrun]
  exact context_bind_of_keeps (fun _ => .bind .context fun _ => .tokenOfBuffer _) ctx₁

theorem readsRun_directive (hb : ctx.Bounded) (hheld : ctx.held = []) :
    ReadsRun directive ctx (('#' :: letters ctx.unread).take ctx.options.wordLimit)
      (letters ctx.unread).length := by
  have hhash := Ends.store_of_fits hb ['#'] (by rw [hheld]; exact fits_one _)
  rw [hheld] at hhash
  obtain ⟨ctx₁, es₁, hrun₁, hcursor₁, hheld₁, hmoves₁⟩ := hhash.exists_stored (.store _)
  have hname := Ends.storeName (hmoves₁.bounded hb) hheld₁ (letters ctx₁.unread)
  rw [hmoves₁.options, hmoves₁.unread_same, ← take_wordLimit] at hname
  obtain ⟨ctx₂, es₂, hrun₂, hcursor₂, hheld₂, -⟩ := hname.exists_stored (.storeCapped _ _)
  refine ⟨ctx₂, hcursor₂.trans hcursor₁, hheld₂, ?_⟩
  unfold Scan.directive
  rw [context_bind hrun₁, context_ofContext]
  dsimp only
  rw [hmoves₁.options, hmoves₁.unread_same, context_bind hrun₂, ← bind_assoc]
  -- Whether the directive is listed makes no difference to the context.
  refine context_bind_of_keeps (fun _ => .bind .context fun _ => ?_) ctx₂
  split
  · exact .bind (.tokenOfBuffer _) fun _ => .pure _
  · exact .bind (.report _ _) fun _ => .pure _

/-! ## What is cut off -/

/-- The routine reads all of `run`, stores as much of it behind `hand` as the options allow, and goes on
from a place in which no option, table or room in the buffer has a say. -/
structure CutsOff (m : Scan α) (ctx : Context) (value : α) (hand : Char) (run : List Char)
    (ds : List Diagnostic) : Prop where
  ends : Ends m ctx value (run ++ Piece.glanced (ctx.unread.drop run.length))
    ((hand :: run).take ctx.options.wordLimit) ds
  same : ∀ ctx' : Context, ctx'.Bounded → ctx'.held = [] → ctx'.cursor = ctx.cursor →
    (m ctx').context.cursor = (m ctx).context.cursor

theorem CutsOff.of_readsRun {find : List Char → List Char} {value : α} {hand : Char}
    {ds : List Diagnostic} (hb : ctx.Bounded) (hheld : ctx.held = [])
    (hends : Ends m ctx value
      (find ctx.unread ++ Piece.glanced (ctx.unread.drop (find ctx.unread).length)) held ds)
    (hruns : ∀ ctx' : Context, ctx'.Bounded → ctx'.held = [] →
      ReadsRun m ctx' ((hand :: find ctx'.unread).take ctx'.options.wordLimit)
        (find ctx'.unread).length) :
    CutsOff m ctx value hand (find ctx.unread) ds where
  ends := by
    rw [← (hruns ctx hb hheld).held_eq, hends.held_eq]
    exact hends
  same := by
    intro ctx' hb' hheld' hcursor
    have hrun' := hruns ctx' hb' hheld'
    have hunread : ctx'.unread = ctx.unread := congrArg Cursor.ahead hcursor
    rw [hunread] at hrun'
    exact (hruns ctx hb hheld).cursor_eq hrun' hcursor

theorem more_directive (tables : Tables) (options : Options) (rest : List Char) :
    (Piece.directive tables options rest).more =
      letters rest ++ Piece.glanced (rest.drop (letters rest).length) := by
  unfold Piece.directive
  dsimp only
  split <;> rfl

theorem cuts_directive (tables : Tables) (options : Options) (rest : List Char) :
    (Piece.directive tables options rest).cuts =
      if String.ofList (('#' :: letters rest).take options.wordLimit) ∈ tables.directives then
        [⟨.directive, '#', (letters rest).take (options.wordLimit - 1)⟩]
      else [] := by
  rw [take_wordLimit]
  unfold Piece.directive
  dsimp only
  split
  · rename_i hfound
    rw [if_pos (Tables.lookUp_eq_found_iff.mp hfound)]
  · rename_i hunknown
    rw [if_neg fun hmem => by cases hunknown.symm.trans (Tables.lookUp_eq_found_iff.mpr hmem)]

/-- There is a directive if what is kept is listed. -/
theorem directive_of_tokens {tables : Tables} {options : Options} {rest : List Char}
    {start : Position} {value : Option Token}
    (h : value.toList = (Piece.directive tables options rest).tokens start) :
    let kept := String.ofList (('#' :: letters rest).take options.wordLimit)
    (∀ t ∈ value, t.kind = .directive ∧ t.position = start ∧ t.text = kept) ∧
      (value.isSome = true ↔ kept ∈ tables.directives) := by
  intro kept
  rw [Piece.tokens, cuts_directive] at h
  by_cases hlisted : kept ∈ tables.directives
  · rw [if_pos hlisted] at h
    cases value with
    | none => cases h
    | some t =>
      obtain rfl := List.head_eq_of_cons_eq h
      refine ⟨fun t' ht' => ?_, by simp [hlisted]⟩
      cases ht'
      exact ⟨rfl, rfl, congrArg String.ofList (take_wordLimit options '#' (letters rest)).symm⟩
  · rw [if_neg hlisted] at h
    cases value with
    | none => exact ⟨fun t' ht' => by (cases ht'), by simp [hlisted]⟩
    | some t => cases h

/-- **What is cut off of a word is missing from the stored text only.** The character in front of the
run was just read, and nothing is stored. All of the run is read, and a line feed if one stands right
behind it; the cursor then stands where it would under any other options. If no entry of the tables is
as long as the limit, the kind is the one of the whole word, and a directive is found if the whole of it
is listed. -/
theorem wordLimit_acts_on_text (hb : ctx.Bounded) (hheld : ctx.held = []) :
    (∀ c, isWordChar c = true → ∃ run t,
      LongestPrefix (AllIn isWordChar) ctx.unread run ∧ CutsOff (word c) ctx t c run [] ∧
        t.text = String.ofList ((c :: run).take ctx.options.wordLimit) ∧ t.position = ctx.start ∧
        (ctx.tables.ShorterThan ctx.options.wordLimit →
          ctx.tables.Names (String.ofList (c :: run)) t.kind)) ∧
      ∃ run value ds,
        LongestPrefix (AllIn Char.isAlpha) ctx.unread run ∧ CutsOff directive ctx value '#' run ds ∧
          (∀ t ∈ value, t.kind = .directive ∧ t.position = ctx.start ∧
            t.text = String.ofList (('#' :: run).take ctx.options.wordLimit)) ∧
          (ctx.tables.ShorterThan ctx.options.wordLimit →
            (value.isSome = true ↔ String.ofList ('#' :: run) ∈ ctx.tables.directives)) := by
  constructor
  · intro c hc
    have hkept := take_wordLimit ctx.options c (Lexeme.word ctx.unread)
    refine ⟨Lexeme.word ctx.unread, _, longestPrefix_takeWhile _ _,
      .of_readsRun hb hheld (Ends.word hb hheld hc) fun ctx' hb' hheld' =>
        readsRun_word hb' hheld' hc, ?_, rfl, ?_⟩
    · rw [hkept]
      rfl
    · intro hshorter
      have hnames := ctx.tables.names_wordKind (String.ofList (c :: Lexeme.word ctx.unread))
      rw [← hshorter.wordKind_take, hkept] at hnames
      exact hnames
  · obtain ⟨value, held, hends, hvalue⟩ := makes_directive hb hheld
    rw [more_directive] at hends
    obtain ⟨hmade, hlisted⟩ := directive_of_tokens hvalue
    refine ⟨letters ctx.unread, value, _, longestPrefix_takeWhile _ _,
      .of_readsRun hb hheld hends fun ctx' => readsRun_directive, hmade, fun hshorter => ?_⟩
    rw [hlisted, ofList_take_mem_iff hshorter.directives]

/-- Fifteen is one more than the longest reserved word has. A longer word is cut off there and is none,
and it is read as it is under the standard limit. -/
theorem wordLimit_acts_on_text_of_unsigned :
    let reached := fun (options : Options) (text : String) =>
      (begin (next (Context.ofText text.toList .standard options)).context).context
    let long := reached { wordLimit := 15 } "unsigned_int_count;"
    let listed := reached { wordLimit := 15 } "#include<"
    ((long.Bounded ∧ long.held = []) ∧ long.tables.ShorterThan 15 ∧
        (∃ t : Token, t.kind = .identifier ∧ t.text = "unsigned_int_co" ∧
          Ends (word 'u') long t "nsigned_int_count".toList "unsigned_int_co".toList []) ∧
        (word 'u' (reached {} "unsigned_int_count;")).context.cursor =
          (word 'u' long).context.cursor) ∧
      (listed.Bounded ∧ listed.held = []) ∧ ∃ value ds, value.isSome = true ∧
        Ends directive listed value "include".toList "#include".toList ds := by
  intro reached long listed
  have hfresh : ∀ options text, (reached options text).Fresh := fun _ _ =>
    Context.fresh_ofText _ _ _ _
  have hlong : long.Fresh := hfresh _ _
  have hlisted : listed.Fresh := hfresh _ _
  have hshorter : Tables.standard.ShorterThan 15 := ⟨by decide, by decide, by decide⟩
  obtain ⟨run, t, hrun, hcut, htext, -, hnames⟩ :=
    (wordLimit_acts_on_text hlong.toBounded hlong.held).1 'u' (by decide)
  obtain rfl := (longestPrefix_takeWhile isWordChar long.unread).unique hrun
  obtain ⟨name, value, ds, hname, hcut', -, hfound⟩ :=
    (wordLimit_acts_on_text hlisted.toBounded hlisted.held).2
  obtain rfl := (longestPrefix_takeWhile Char.isAlpha listed.unread).unique hname
  have hidentifier : t.kind = .identifier :=
    (hnames hshorter).identifier.mpr ⟨by decide, by decide⟩
  have hsame := hcut.same (reached {} "unsigned_int_count;") (hfresh _ _).toBounded
    (hfresh _ _).held rfl
  exact ⟨⟨⟨hlong.toBounded, hlong.held⟩, hshorter, ⟨t, hidentifier, htext, hcut.ends⟩, hsame⟩,
    ⟨hlisted.toBounded, hlisted.held⟩, value, ds, (hfound hshorter).mpr (by decide), hcut'.ends⟩

end Scan

end CLexer
