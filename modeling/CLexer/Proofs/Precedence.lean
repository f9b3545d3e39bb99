import CLexer.Proofs.Flags
import CLexer.Proofs.Text.Terminal

/-!
# Flags over the environment

The options of the command come in layers: the arguments lie over the environment, and that lies
over the defaults. The layers are checked twice, without the arguments and with them on top. So a
request overrides what the environment says only if the environment is sound by itself
(`request_overrides_sound_environment`): then the scan has exactly the options that all layers give,
or the command stops because these are not sound. This holds of a command line with flags in front,
which asks for such a request (`flags_override_sound_environment`). An environment that is not sound
is not mended by a flag (`flags_do_not_mend_environment`).

That the command stops because of its options can be seen from what it leaves behind. It also stops
with the same exit status for other reasons, but what it says then starts in another way.
-/

set_option autoImplicit false

namespace CLexer.Command

open CLexer.Text

/-! ## The options of a request -/

variable {r : Request} {env : Environment} {look : Lookup}

theorem requestedOptions_eq (h : env.Readable) :
    requestedOptions r env =
      env.settings.check >>= fun o => (r.layer.over o.settings).check := by
  have hlayer : ∀ s : Settings, r.layer.over s =
      { s with
        verbose := r.verbose || s.verbose
        keepMultichar := r.keepMultichar || s.keepMultichar
        wordLimit := r.wordLimit.getD s.wordLimit } := by
    intro s
    cases hv : r.verbose <;> cases hk : r.keepMultichar <;>
      simp [Request.layer, Layer.over, hv, hk]
  simp only [requestedOptions, h.ofEnvironment_eq, hlayer]

theorem requestedOptions_of_sound (h : env.Readable) (hbase : env.settings.Sound)
    (hwanted : (r.layer.over env.settings).Sound) :
    ∃ o : Options, requestedOptions r env = .ok o ∧ o.settings = r.layer.over env.settings := by
  obtain ⟨base, hcheck, hsettings⟩ := Settings.check_of_sound hbase
  obtain ⟨o, hwhole, ho⟩ := Settings.check_of_sound hwanted
  refine ⟨o, ?_, ho⟩
  rw [requestedOptions_eq h, hcheck, ← hwhole, ← hsettings]
  rfl

theorem requestedOptions_of_not_sound (h : env.Readable)
    (hunsound : ¬ (env.settings.Sound ∧ (r.layer.over env.settings).Sound)) :
    ∃ cause, requestedOptions r env = .error cause ∧
      (env.settings.Breaks cause ∨
        env.settings.Sound ∧ (r.layer.over env.settings).Breaks cause) := by
  rw [requestedOptions_eq h]
  by_cases hbase : env.settings.Sound
  · obtain ⟨base, hcheck, hsettings⟩ := Settings.check_of_sound hbase
    obtain ⟨cause, hwhole, hbreaks⟩ :=
      Settings.check_of_not_sound fun hwanted => hunsound ⟨hbase, hwanted⟩
    refine ⟨cause, ?_, .inr ⟨hbase, hbreaks⟩⟩
    rw [hcheck, ← hwhole, ← hsettings]
    rfl
  · obtain ⟨cause, hcheck, hbreaks⟩ := Settings.check_of_not_sound hbase
    refine ⟨cause, ?_, .inl hbreaks⟩
    rw [hcheck]
    rfl

/-! ## Stopping over the options -/

/-- The settings that are checked, by their names in messages. -/
def checkedNames : List String := ["identifier_max_len", "buffer_capacity", "max_lexeme_len"]

/-- The command ends with the status of wrong arguments, and what it says starts with an error that
names a checked setting first. -/
def Effects.BlamesSetting (e : Effects) : Prop :=
  e.exit = 2 ∧ ∃ name ∈ checkedNames, "Error: ".toList ++ name.toList <+: e.stderr.toList

/-- The first words of messages about other things that are wrong. -/
def otherWords : List String := ["'utf-8'", "invalid", "Exceeds", "[Errno", "token"]

/-- If the reason to stop is something that is wrong, it is not a setting. -/
def Stop.IsOther (s : Stop) : Prop :=
  ∀ message, s = .invalid message → ∃ word ∈ otherWords, word.toList <+: message.toList

theorem isOther_append {word start : String} (hword : word ∈ otherWords)
    (hstart : word.toList <+: start.toList) (rest : String) :
    (Stop.invalid (start ++ rest)).IsOther := by
  intro message hmessage
  obtain rfl := Stop.invalid.inj hmessage
  refine ⟨word, hword, ?_⟩
  rw [String.toList_append]
  exact hstart.trans (List.prefix_append _ _)

theorem isOther_of_utf8 (f : Utf8.Fault) : (Stop.invalid f.message).IsOther := by
  have hword : "'utf-8'".toList <+: "'utf-8' codec can't decode ".toList := by decide
  unfold Utf8.Fault.message
  simp only [String.append_assoc]
  exact isOther_append (by simp [otherWords]) hword _

theorem isOther_of_integer (e : IntegerError) : (Stop.invalid e.message).IsOther := by
  unfold IntegerError.message
  cases e with
  | malformed text =>
    have hword : "invalid".toList <+: "invalid literal for int() with base 10: ".toList := by decide
    exact isOther_append (by simp [otherWords]) hword _
  | tooLong digits =>
    have hword : "Exceeds".toList <+: "Exceeds the limit (".toList := by decide
    simp only [String.append_assoc]
    exact isOther_append (by simp [otherWords]) hword _

theorem isOther_ofTableFault (e : TableFault) : (Stop.ofTableFault e).IsOther := by
  unfold Stop.ofTableFault
  split
  · exact isOther_of_integer _
  · split <;> nofun

theorem isOther_ofFailure (f : Failure) : (Stop.ofFailure f).IsOther := by
  unfold Stop.ofFailure
  split
  · nofun
  · nofun
  · have hword : "token".toList <+: Token.emptyTextMessage.toList := by decide
    have hother := isOther_append (by simp [otherWords]) hword ""
    rwa [String.append_empty] at hother
  · nofun
  · exact isOther_of_utf8 _

theorem isOther_of_requestedTables {s : Stop} (h : (requestedTables r look).result = .error s) :
    s.IsOther := by
  unfold requestedTables at h
  split at h
  · cases h
  · split at h
    · unfold tablesInFile at h
      dsimp only at h
      split at h
      · cases h
        exact isOther_of_utf8 _
      · dsimp only at h
        split at h
        · cases h
        · cases h
          exact isOther_ofTableFault _
    · cases h
      nofun

theorem isOther_of_requestedSheet {s : Stop} (h : requestedSheet r look = .error s) :
    s.IsOther := by
  unfold requestedSheet at h
  split at h
  · cases h
  · dsimp only at h
    split at h
    · cases h
    · split at h
      · cases h
      · cases h
      · cases h
        have hword : "[Errno".toList <+: "[Errno 2] No such file or directory: ".toList := by decide
        exact isOther_append (by simp [otherWords]) hword _
      · cases h
        nofun
      · cases h
        nofun

/-- The text does not start as an error does. Behind such a text, an error comes first only if the
text is empty. -/
def IsQuiet (text : String) : Prop := text.toList.head? ≠ some 'E'

theorem isQuiet_of_isPrefix {c : Char} {start : List Char} {text : String} (hc : c ≠ 'E')
    (h : c :: start <+: text.toList) : IsQuiet text := by
  obtain ⟨rest, hrest⟩ := h
  rw [IsQuiet, ← hrest]
  simpa using hc

theorem isQuiet_append {a b : String} (ha : IsQuiet a) (hb : IsQuiet b) : IsQuiet (a ++ b) := by
  unfold IsQuiet at *
  rw [String.toList_append]
  cases h : a.toList with
  | nil => exact hb
  | cons c cs =>
    rw [h] at ha
    exact ha

theorem isQuiet_join {texts : List String} (h : ∀ t ∈ texts, IsQuiet t) :
    IsQuiet (String.join texts) := by
  induction texts with
  | nil => nofun
  | cons t texts ih =>
    rw [String.join_cons]
    exact isQuiet_append (h t List.mem_cons_self) (ih fun u hu => h u (List.mem_cons_of_mem t hu))

theorem isQuiet_logged (r : Request) (n : Note) : IsQuiet (r.logged n) := by
  unfold Request.logged
  split
  · simp [IsQuiet, noteLine, Note.level]
  · nofun

theorem isQuiet_diagnosticLine (color : Bool) (d : Diagnostic) :
    IsQuiet (diagnosticLine color d) := by
  cases color with
  | true => simp [IsQuiet, diagnosticLine]
  | false =>
    have hline : "row ".toList <+: d.consoleLine.toList := by
      simp only [Diagnostic.consoleLine, Diagnostic.place, String.append_assoc]
      rw [String.toList_append]
      exact List.prefix_append _ _
    have hplain := isPrefix_withoutSequences (by decide) hline
    refine isQuiet_append ?_ nofun
    exact isQuiet_of_isPrefix (by decide) hplain

theorem isQuiet_echo (color : Bool) (d : Diagnostic) (s : Sink) : IsQuiet (echo color d s) := by
  unfold echo
  split
  · exact isQuiet_diagnosticLine color d
  · nofun
  · nofun

theorem isQuiet_eventText (r : Request) (chain : Chain) (e : Event) :
    IsQuiet (eventText r chain e) := by
  cases e with
  | note n => exact isQuiet_logged r n
  | report d =>
    refine isQuiet_join fun text htext => ?_
    obtain ⟨s, -, rfl⟩ := List.mem_map.mp htext
    exact isQuiet_echo r.color d s
  | token t => nofun
  | textEnd => nofun

theorem isQuiet_log (r : Request) (look : Lookup) : IsQuiet (requestedTables r look).log := by
  unfold requestedTables
  split
  · nofun
  · split
    · unfold tablesInFile
      dsimp only
      split
      · nofun
      · dsimp only
        split
        · exact isQuiet_logged r _
        · nofun
    · nofun

/-- What starts with such a word does not start with the name of a setting. -/
theorem not_isPrefix_of_otherWords {name word : String} {text : List Char}
    (hname : name ∈ checkedNames) (hword : word ∈ otherWords) (h : word.toList <+: text) :
    ¬ name.toList <+: text := by
  have happart : ∀ name ∈ checkedNames, ∀ word ∈ otherWords,
      ¬ name.toList <+: word.toList ∧ ¬ word.toList <+: name.toList := by decide
  intro hprefix
  rcases List.prefix_or_prefix_of_prefix hprefix h with hbefore | hbefore
  · exact (happart name hname word hword).1 hbefore
  · exact (happart name hname word hword).2 hbefore

theorem escape_not_mem_otherWords : ∀ word ∈ otherWords, '\x1b' ∉ word.toList := by decide

theorem exists_message {s : Stop} (h : s.exit = 2) : ∃ message, s = .invalid message := by
  cases s with
  | problem p => simp [Stop.exit] at h
  | invalid message => exact ⟨message, rfl⟩
  | unexpected => simp [Stop.exit] at h

/-- Behind something quiet, another reason to stop does not blame a setting. -/
theorem not_blamesSetting_of_isOther {e : Effects} {s : Stop} {said : String} (hs : s.IsOther)
    (hsaid : IsQuiet said) (hexit : e.exit = s.exit) (hstderr : e.stderr = said ++ s.text) :
    ¬ e.BlamesSetting := by
  rintro ⟨hstatus, name, hname, hblames⟩
  rw [hstderr, String.toList_append] at hblames
  -- Either something quiet comes before the reason, or the reason comes first.
  cases hfirst : said.toList with
  | cons c cs =>
    rw [IsQuiet, hfirst] at hsaid
    rw [hfirst] at hblames
    obtain ⟨rest, hrest⟩ := hblames
    exact hsaid (congrArg some (List.cons.inj hrest).1.symm)
  | nil =>
    rw [hfirst, List.nil_append] at hblames
    obtain ⟨message, rfl⟩ := exists_message (hexit.symm.trans hstatus)
    obtain ⟨word, hword, hmessage⟩ := hs message rfl
    have hplain := isPrefix_withoutSequences (escape_not_mem_otherWords word hword) hmessage
    rw [Stop.text, String.toList_append, String.toList_append, List.append_assoc,
      List.prefix_append_right_inj] at hblames
    exact not_isPrefix_of_otherWords hname hword (hplain.trans (List.prefix_append _ _)) hblames

theorem not_blamesSetting_effectsOf (r : Request) (source : String) (sheet : Sheet) {log : String}
    (hlog : IsQuiet log) (chain : Chain) (report : Report) :
    ¬ (effectsOf r source sheet log chain report).BlamesSetting := by
  have hsaid : IsQuiet (log ++ String.join (report.events.map (eventText r chain))) := by
    refine isQuiet_append hlog (isQuiet_join fun text htext => ?_)
    obtain ⟨e, -, rfl⟩ := List.mem_map.mp htext
    exact isQuiet_eventText r chain e
  unfold effectsOf
  dsimp only
  split
  · rename_i f _
    exact not_blamesSetting_of_isOther (isOther_ofFailure f) hsaid (Effects.exit_ofSheet ..)
      (Effects.stderr_ofSheet ..)
  · rintro ⟨hexit, -⟩
    rw [Effects.exit_ofSheet] at hexit
    split at hexit <;> cases hexit

/-- With options for the scan, the command does not stop because of them. -/
theorem not_blamesSetting_scanRequest {options : Options}
    (h : requestedOptions r env = .ok options) : ¬ (scanRequest r env look).BlamesSetting := by
  have hlog := isQuiet_log r look
  unfold scanRequest
  rw [h]
  dsimp only
  split
  · rename_i hfound
    exact not_blamesSetting_of_isOther (isOther_of_requestedTables hfound) hlog rfl rfl
  · split
    · rename_i hsheet
      exact not_blamesSetting_of_isOther (isOther_of_requestedSheet hsheet) hlog rfl rfl
    · exact not_blamesSetting_effectsOf r _ _ hlog _ _

/-! ## The message about a bound -/

theorem escape_not_mem_toString (n : Int) : '\x1b' ∉ (toString n).toList := by
  have hdigits : ∀ m : Nat, '\x1b' ∉ (Nat.repr m).toList := by
    intro m hm
    rw [Nat.repr, String.toList_ofList] at hm
    exact absurd (Nat.isDigit_of_mem_toDigits (by decide) (by decide) hm) (by decide)
  cases n with
  | ofNat m => exact hdigits m
  | negSucc m =>
    intro hm
    have hm : '\x1b' ∈ ("-" ++ Nat.repr m.succ).toList := hm
    rw [String.toList_append, List.mem_append] at hm
    rcases hm with hm | hm
    · exact absurd hm (by decide)
    · exact hdigits _ hm

theorem message_lexemeLimit (limit least : Int) :
    OptionsError.message (.lexemeLimit limit least) =
      "max_lexeme_len (" ++ (toString limit ++ (") is below identifier_max_len (" ++
        (toString least ++ ")"))) := by
  rw [← String.append_assoc, ← String.append_assoc, ← String.append_assoc]
  rfl

variable {s : Settings} {cause : OptionsError}

theorem escape_not_mem_message (h : s.Breaks cause) : '\x1b' ∉ cause.message.toList := by
  cases h with
  | wordLimit h => decide
  | capacity h => decide
  | lexemeLimit hl h =>
    rw [message_lexemeLimit]
    simp only [String.toList_append, List.mem_append, not_or]
    exact ⟨by decide, escape_not_mem_toString _, by decide, escape_not_mem_toString _, by decide⟩

theorem message_names_setting (h : s.Breaks cause) :
    ∃ name ∈ checkedNames, name.toList <+: cause.message.toList := by
  cases h with
  | wordLimit h => exact ⟨"identifier_max_len", by decide, by decide⟩
  | capacity h => exact ⟨"buffer_capacity", by decide, by decide⟩
  | lexemeLimit hl h =>
    refine ⟨"max_lexeme_len", by decide, ?_⟩
    rw [message_lexemeLimit, String.toList_append]
    exact List.IsPrefix.trans (by decide) (List.prefix_append "max_lexeme_len (".toList _)

/-- What the command leaves behind when a bound is broken: a message about it, and no tokens. -/
theorem scanRequest_of_breaks (h : requestedOptions r env = .error cause) (hs : s.Breaks cause) :
    scanRequest r env look =
      { exit := 2, stdout := "", stderr := "Error: " ++ cause.message ++ "\n",
        written := none } := by
  unfold scanRequest
  rw [h]
  dsimp only
  rw [Effects.stopped, Stop.text, withoutSequences_eq_self (escape_not_mem_message hs),
    String.empty_append]
  rfl

theorem blamesSetting_of_breaks {e : Effects} (hs : s.Breaks cause) (hexit : e.exit = 2)
    (hstderr : e.stderr = "Error: " ++ cause.message ++ "\n") : e.BlamesSetting := by
  obtain ⟨name, hname, hmessage⟩ := message_names_setting hs
  refine ⟨hexit, name, hname, ?_⟩
  rw [hstderr, String.toList_append, String.toList_append, List.append_assoc,
    List.prefix_append_right_inj]
  exact hmessage.trans (List.prefix_append _ _)

/-! ## Runs -/

/-- **A request overrides an environment that is sound.** If what the environment gives over the
defaults is sound, and what a request gives over that is sound too, the scan has these settings: with
tables and a place for the tokens, the request leaves behind what that scan does. If not, and only
then, it stops over a setting. It leaves behind the message about a bound that the environment breaks
by itself, or else one that is broken with the request, and no tokens. -/
theorem request_overrides_sound_environment (r : Request) (look : Lookup) (hread : env.Readable) :
    let base := env.settings
    let wanted := r.layer.over base
    (base.Sound ∧ wanted.Sound → ∃ options : Options, options.settings = wanted ∧
      ∀ tables sheet, (requestedTables r look).result = .ok tables →
        requestedSheet r look = .ok sheet →
        scanRequest r env look =
          effectsOf r (plainPath r.input) sheet (requestedTables r look).log (r.sinks options)
            (scanInput (.ofUtf8 (inputBytes r look sheet)) tables options (r.sinks options)
              (plainPath r.input))) ∧
    ((scanRequest r env look).BlamesSetting ↔ ¬ (base.Sound ∧ wanted.Sound)) ∧
    (¬ (base.Sound ∧ wanted.Sound) →
      ∃ cause, (base.Breaks cause ∨ base.Sound ∧ wanted.Breaks cause) ∧
        scanRequest r env look =
          { exit := 2, stdout := "", stderr := "Error: " ++ cause.message ++ "\n",
            written := none }) := by
  intro base wanted
  -- Which of the two settings break the bound has no part in what the command leaves behind.
  have hbroken {cause : OptionsError} (h : base.Breaks cause ∨ base.Sound ∧ wanted.Breaks cause) :
      ∃ s : Settings, s.Breaks cause :=
    h.elim (fun hs => ⟨base, hs⟩) (fun hs => ⟨wanted, hs.2⟩)
  refine ⟨fun h => ?_, ⟨fun hblames h => ?_, fun h => ?_⟩, fun h => ?_⟩
  · obtain ⟨options, hoptions, hsettings⟩ := requestedOptions_of_sound hread h.1 h.2
    refine ⟨options, hsettings, fun tables sheet htables hsheet => ?_⟩
    simp only [scanRequest, hoptions, htables, hsheet]
  · obtain ⟨options, hoptions, -⟩ := requestedOptions_of_sound hread h.1 h.2
    exact not_blamesSetting_scanRequest hoptions hblames
  · obtain ⟨cause, hoptions, hbreaks⟩ := requestedOptions_of_not_sound hread h
    obtain ⟨s, hs⟩ := hbroken hbreaks
    rw [scanRequest_of_breaks hoptions hs]
    exact blamesSetting_of_breaks hs rfl rfl
  · obtain ⟨cause, hoptions, hbreaks⟩ := requestedOptions_of_not_sound hread h
    obtain ⟨s, hs⟩ := hbroken hbreaks
    exact ⟨cause, hbreaks, scanRequest_of_breaks hoptions hs⟩

/-- **Flags override an environment that is sound.** A command line asks for a scan, with paths that
fit, and more flags are put in front of it. If what the environment gives over the defaults is
sound, and what the flags and then the line itself give over that is sound too, the scan has these
settings: with tables and a place for the tokens, the command leaves behind what that scan does. If
not, and only then, the command stops over a setting. It leaves behind the message about a bound
that the environment breaks by itself, or else one that is broken with the arguments, and no
tokens. -/
theorem flags_override_sound_environment {args : List String} {own : Request}
    {flags : List OptionFlag} (hdemand : demand args = some (.scan own))
    (hpaths : pathsFit own look = true) (hread : env.Readable) (hflags : ∀ f ∈ flags, f.Fits) :
    let line := flags.flatMap OptionFlag.arguments ++ args
    let r := flags.foldr OptionFlag.under own
    let base := env.settings
    let wanted := own.layer.over (flags.foldl (fun s f => f.layer.over s) base)
    demand line = some (.scan r) ∧
      (base.Sound ∧ wanted.Sound → ∃ options : Options, options.settings = wanted ∧
        ∀ tables sheet, (requestedTables r look).result = .ok tables →
          requestedSheet r look = .ok sheet →
          run line env look =
            effectsOf r (plainPath r.input) sheet (requestedTables r look).log (r.sinks options)
              (scanInput (.ofUtf8 (inputBytes r look sheet)) tables options (r.sinks options)
                (plainPath r.input))) ∧
      ((run line env look).BlamesSetting ↔ ¬ (base.Sound ∧ wanted.Sound)) ∧
      (¬ (base.Sound ∧ wanted.Sound) →
        ∃ cause, (base.Breaks cause ∨ base.Sound ∧ wanted.Breaks cause) ∧
          run line env look =
            { exit := 2, stdout := "", stderr := "Error: " ++ cause.message ++ "\n",
              written := none }) := by
  intro line r base wanted
  have hline : demand line = some (.scan r) := OptionFlag.demand_flags hflags hdemand
  have hfit : pathsFit r look = true := (OptionFlag.pathsFit_flags flags look).trans hpaths
  have hwanted : r.layer.over env.settings = wanted := OptionFlag.layer_flags flags env.settings
  have hrequest := request_overrides_sound_environment r look hread
  dsimp only at hrequest
  rw [hwanted, ← run_of_demand hline hfit env] at hrequest
  exact ⟨hline, hrequest⟩

/-- The environment bounds literals at 40 characters and cuts words at 20. Of two flags the second
one cuts them at 10 instead, and the scan goes on; the first one alone, at 50, is refused. -/
theorem flags_override_sound_environment_up_to_literals :
    let look : Lookup := fun path => if path = "a.c" then .file ["a.c"] [0x78] else .missing
    let env : Environment := [("CSCAN_IDENTIFIER_MAX_LEN", "20"), ("CSCAN_MAX_LEXEME_LEN", "40")]
    let own : Request := { input := "a.c", strict := true, verbose := true }
    (demand ["--strict", "-v", "a.c"] = some (.scan own) ∧ pathsFit own look = true ∧
        env.Readable ∧ ∀ f ∈ [.wordLimit "50", .wordLimit "10"], OptionFlag.Fits f) ∧
      (∃ options : Options,
        options.settings = { wordLimit := 10, lexemeLimit := some 40, verbose := true } ∧
          run ["--max-ident-len", "50", "--max-ident-len", "10", "--strict", "-v", "a.c"] env look =
            effectsOf { own with wordLimit := some 10 } "a.c" .stdout ""
              [.collector options.verbose, console]
              (scanInput (.ofUtf8 [0x78]) .standard options
                [.collector options.verbose, console] "a.c")) ∧
      (run ["--max-ident-len", "50", "--strict", "-v", "a.c"] env look).BlamesSetting := by
  intro look env own
  have hdemand : demand ["--strict", "-v", "a.c"] = some (.scan own) := rfl
  have hpaths : pathsFit own look = true := by decide
  have hread : env.Readable := by decide
  have hfifty : (OptionFlag.wordLimit "50").Fits := ⟨50, rfl, by decide⟩
  have hten : (OptionFlag.wordLimit "10").Fits := ⟨10, rfl, by decide⟩
  have hboth : ∀ f ∈ [.wordLimit "50", .wordLimit "10"], OptionFlag.Fits f := by
    simp [hfifty, hten]
  have hone : ∀ f ∈ [.wordLimit "50"], OptionFlag.Fits f := by
    simp [hfifty]
  have hbase : env.settings = { wordLimit := 20, lexemeLimit := some 40 } := rfl
  refine ⟨⟨hdemand, hpaths, hread, hboth⟩, ?_, ?_⟩
  · have hwanted : own.layer.over ([.wordLimit "50", .wordLimit "10"].foldl
        (fun s f => (OptionFlag.layer f).over s) env.settings) =
          { wordLimit := 10, lexemeLimit := some 40, verbose := true } := rfl
    obtain ⟨options, hsettings, hscan⟩ :=
      (flags_override_sound_environment hdemand hpaths hread hboth).2.1
        ⟨by rw [hbase]; exact ⟨by decide, by decide, by decide⟩,
          by rw [hwanted]; exact ⟨by decide, by decide, by decide⟩⟩
    have hr : [.wordLimit "50", .wordLimit "10"].foldr OptionFlag.under own =
        { own with wordLimit := some 10 } := rfl
    have hname : plainPath "a.c" = "a.c" := by decide +kernel
    have hbytes : inputBytes { own with wordLimit := some 10 } look .stdout = [0x78] := by decide
    have hrun := hscan .standard .stdout rfl rfl
    rw [hr, hname, hbytes] at hrun
    exact ⟨options, hsettings.trans hwanted, hrun⟩
  · refine (flags_override_sound_environment hdemand hpaths hread hone).2.2.1.mpr fun h => ?_
    have hwanted : own.layer.over ([.wordLimit "50"].foldl
        (fun s f => (OptionFlag.layer f).over s) env.settings) =
          { wordLimit := 50, lexemeLimit := some 40, verbose := true } := rfl
    rw [hwanted] at h
    exact absurd (h.2.wordLimit_le 40 rfl) (by decide)

/-- A flag does not mend the environment: its bound on literals leaves room for words of the 10
characters that the flag keeps, but not for the 32 that are kept without it. -/
theorem flags_do_not_mend_environment :
    let look : Lookup := fun path => if path = "a.c" then .file ["a.c"] [0x78] else .missing
    let env : Environment := [("CSCAN_MAX_LEXEME_LEN", "20")]
    let r : Request := { input := "a.c", wordLimit := some 10 }
    let wanted := r.layer.over env.settings
    demand ["--max-ident-len", "10", "a.c"] = some (.scan r) ∧ pathsFit r look = true ∧
      env.Readable ∧ wanted.Sound ∧
      run ["--max-ident-len", "10", "a.c"] env look =
        { exit := 2, stdout := "", written := none,
          stderr := "Error: max_lexeme_len (20) is below identifier_max_len (32)\n" } := by
  intro look env r wanted
  have hwanted : wanted = { wordLimit := 10, lexemeLimit := some 20 } := rfl
  have hsound : wanted.Sound := by
    rw [hwanted]
    exact ⟨by decide, by decide, by decide⟩
  have hdemand : demand ["--max-ident-len", "10", "a.c"] = some (.scan r) := rfl
  have hpaths : pathsFit r look = true := by decide
  have hrefused : requestedOptions r env = .error (.lexemeLimit 20 32) := rfl
  have hbreaks : env.settings.Breaks (.lexemeLimit 20 32) := .lexemeLimit rfl (by decide)
  refine ⟨hdemand, hpaths, by decide, hsound, ?_⟩
  rw [run_of_demand hdemand hpaths, scanRequest_of_breaks hrefused hbreaks]
  rfl

end CLexer.Command
