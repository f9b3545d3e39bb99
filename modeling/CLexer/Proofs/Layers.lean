import CLexer.Options

/-!
# Settings in layers

Settings come from several places that lie one over another: the defaults at the bottom, over them
the environment, over that the arguments of a command. A place that says something about a setting
hides what lies below it there, and lets the rest through (`Layer.over`).

Options are made of settings by a check. Which settings pass is told here without the check
(`Settings.Sound`), as is what may be blamed for it if they do not (`Settings.Breaks`). The check
passes sound settings unchanged, and of others it blames a bound that they break.
-/

set_option autoImplicit false

namespace CLexer

/-! ## Sound settings -/

namespace Settings

/-- A word keeps at least one character, the buffer has room for one, and a literal may be as long
as a word. -/
structure Sound (s : Settings) : Prop where
  wordLimit_pos : 1 ≤ s.wordLimit
  capacity_pos : 1 ≤ s.capacity
  wordLimit_le : ∀ l ∈ s.lexemeLimit, s.wordLimit ≤ l

/-- The error describes a bound that the settings break. -/
inductive Breaks (s : Settings) : OptionsError → Prop where
  | wordLimit (h : s.wordLimit < 1) : s.Breaks .wordLimit
  | capacity (h : s.capacity < 1) : s.Breaks .capacity
  | lexemeLimit {l : Int} (hl : s.lexemeLimit = some l) (h : l < s.wordLimit) :
      s.Breaks (.lexemeLimit l s.wordLimit)

variable {s : Settings}

theorem check_of_sound (h : s.Sound) : ∃ o : Options, s.check = .ok o ∧ o.settings = s := by
  have hpos := h.wordLimit_pos
  have hcapacity := h.capacity_pos
  have hfits : s.limitFits := h.wordLimit_le
  have hlexeme : (s.lexemeLimit.map Int.toNat).map Int.ofNat = s.lexemeLimit := by
    cases hl : s.lexemeLimit with
    | none => rfl
    | some l =>
      have hle := h.wordLimit_le l hl
      have hback : Int.ofNat l.toNat = l := Int.toNat_of_nonneg (by omega)
      rw [Option.map_some, Option.map_some, hback]
  refine ⟨_, by rw [check, dif_neg (by omega), dif_neg (by omega), dif_pos hfits], ?_⟩
  rw [Options.settings]
  dsimp only
  rw [hlexeme, Int.toNat_of_nonneg (by omega), Int.toNat_of_nonneg (by omega)]

theorem check_of_not_sound (h : ¬ s.Sound) :
    ∃ cause, s.check = .error cause ∧ s.Breaks cause := by
  unfold check
  split
  · rename_i hword
    exact ⟨_, rfl, .wordLimit hword⟩
  · rename_i hword
    split
    · rename_i hcapacity
      exact ⟨_, rfl, .capacity hcapacity⟩
    · rename_i hcapacity
      split
      · rename_i hfits
        exact absurd ⟨by omega, by omega, hfits⟩ h
      · rename_i hfits
        cases hl : s.lexemeLimit with
        | none => exact absurd (by simp [limitFits, hl]) hfits
        | some l =>
          have hbelow : l < s.wordLimit := by simpa [limitFits, hl] using hfits
          exact ⟨_, rfl, .lexemeLimit hl hbelow⟩

end Settings

/-! ## Layers -/

/-- A place that settings come from, with those that it gives. -/
structure Layer where
  wordLimit : Option Int := none
  capacity : Option Int := none
  lexemeLimit : Option Int := none
  verbose : Option Bool := none
  keepMultichar : Option Bool := none

/-- Settings in which those are replaced that the layer gives. -/
def Layer.over (l : Layer) (s : Settings) : Settings where
  wordLimit := l.wordLimit.getD s.wordLimit
  capacity := l.capacity.getD s.capacity
  lexemeLimit := l.lexemeLimit.or s.lexemeLimit
  verbose := l.verbose.getD s.verbose
  keepMultichar := l.keepMultichar.getD s.keepMultichar

/-- The integer that a text is read as, if it is one. -/
def Text.readInteger? (text : String) : Option Int := (parseInteger text).toOption

theorem Text.readInteger?_eq_some {text : String} {n : Int} :
    readInteger? text = some n ↔ parseInteger text = .ok n := by
  unfold readInteger?
  cases parseInteger text <;> simp [Except.toOption]

/-! ## The environment as a layer -/

namespace Environment

/-- The variables that hold integers. -/
def integerNames : List String :=
  ["CSCAN_IDENTIFIER_MAX_LEN", "CSCAN_BUFFER_CAPACITY", "CSCAN_MAX_LEXEME_LEN"]

/-- Those of them that are set hold integers indeed. -/
def Readable (env : Environment) : Prop :=
  ∀ name ∈ integerNames, ∀ value ∈ env.get? name, (Text.readInteger? value).isSome

instance (env : Environment) : Decidable env.Readable :=
  inferInstanceAs (Decidable (∀ name ∈ integerNames, ∀ value ∈ env.get? name,
    (Text.readInteger? value).isSome))

end Environment

/-- What an environment gives: of each variable that is set, what it says. -/
def Layer.ofEnvironment (env : Environment) : Layer where
  wordLimit := (env.get? "CSCAN_IDENTIFIER_MAX_LEN").bind Text.readInteger?
  capacity := (env.get? "CSCAN_BUFFER_CAPACITY").bind Text.readInteger?
  lexemeLimit := (env.get? "CSCAN_MAX_LEXEME_LEN").bind Text.readInteger?
  verbose := (env.get? "CSCAN_VERBOSE").map Settings.isYes
  keepMultichar := (env.get? "CSCAN_EMIT_MULTICHAR").map Settings.isYes

/-- What an environment gives over the defaults. -/
def Environment.settings (env : Environment) : Settings := (Layer.ofEnvironment env).over {}

namespace Environment.Readable

variable {env : Environment}

theorem integer? (h : env.Readable) {name : String} (hname : name ∈ integerNames) :
    Settings.integer? env name = .ok ((env.get? name).bind Text.readInteger?) := by
  unfold Settings.integer?
  cases hvalue : env.get? name with
  | none => rfl
  | some value =>
    obtain ⟨n, hn⟩ := Option.isSome_iff_exists.mp (h name hname value hvalue)
    simp [hn, Text.readInteger?_eq_some.mp hn]

/-- **A readable environment is a layer over the defaults.** -/
theorem ofEnvironment_eq (h : env.Readable) :
    Options.ofEnvironment env = env.settings.check := by
  have hword : Settings.integer? env "CSCAN_IDENTIFIER_MAX_LEN" = _ :=
    h.integer? (by simp [integerNames])
  have hcapacity : Settings.integer? env "CSCAN_BUFFER_CAPACITY" = _ :=
    h.integer? (by simp [integerNames])
  have hlexeme : Settings.integer? env "CSCAN_MAX_LEXEME_LEN" = _ :=
    h.integer? (by simp [integerNames])
  have hsettings : Settings.ofEnvironment env = .ok env.settings := by
    rw [Settings.ofEnvironment, hword, hcapacity, hlexeme, settings, Layer.over, Option.or_none]
    rfl
  rw [Options.ofEnvironment, hsettings]
  rfl

end Environment.Readable

end CLexer
