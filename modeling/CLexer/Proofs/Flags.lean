import CLexer.Command.Run
import CLexer.Proofs.Layers

/-!
# Flags in front of a command line

Three flags of the command bear on the options of a scan. Put in front of a command line that asks
for a scan, each of them is understood in any number and order, and the line asks for the same scan
with other options (`OptionFlag.demand_flags`).

Each flag is a layer of settings. Of several the last one counts, so a flag lies over those in front
of it and below what the line says itself (`OptionFlag.layer_flags`).
-/

set_option autoImplicit false

namespace CLexer.Command

open CLexer.Text

/-! ## One more option in front -/

namespace Parts

variable {p : Parts} {g : Given} {f : Flag}

/-- The parts of a command line behind one more option. -/
def behind (p : Parts) (g : Given) : Parts := { p with given := g :: p.given }

theorem value?_behind_other (h : g.flag ≠ f) : (p.behind g).value? f = p.value? f := by
  simp [value?, behind, List.find?_append, h]

theorem value?_behind_own (value : String) :
    (p.behind ⟨f, value⟩).value? f = (p.value? f).or (some value) := by
  simp only [value?, behind, List.reverse_cons, List.find?_append]
  cases p.given.reverse.find? (·.flag == f) <;> simp

theorem switch?_behind_other {on off : Flag} (hon : g.flag ≠ on) (hoff : g.flag ≠ off) :
    (p.behind g).switch? on off = p.switch? on off := by
  simp [switch?, behind, List.find?_append, hon, hoff]

variable {α : Type} {read : String → Option α}

theorem optionValue_behind_other (h : g.flag ≠ f) :
    optionValue (p.behind g) f read = optionValue p f read := by
  rw [optionValue, optionValue, value?_behind_other h]

theorem optionValue_behind_own {value : String} {a : α} (h : read value = some a) :
    optionValue (p.behind ⟨f, value⟩) f read = (optionValue p f read).map (·.or (some a)) := by
  rw [optionValue, optionValue, value?_behind_own]
  cases p.value? f with
  | none => simp [h]
  | some v => cases hv : read v <;> simp [hv]

end Parts

/-! ## Flags for the options of a scan -/

/-- A flag that bears on the options of a scan. -/
inductive OptionFlag where
  | verbose
  | keepMultichar
  | wordLimit (number : String)

/-- What the arguments of a request give. -/
def Request.layer (r : Request) : Layer where
  wordLimit := r.wordLimit
  verbose := if r.verbose then some true else none
  keepMultichar := if r.keepMultichar then some true else none

namespace OptionFlag

/-- The arguments that a flag is written as. -/
def arguments : OptionFlag → List String
  | .verbose => ["-v"]
  | .keepMultichar => ["--emit-multichar"]
  | .wordLimit number => ["--max-ident-len", number]

/-- The option that these arguments stand for. -/
def given : OptionFlag → Given
  | .verbose => ⟨.verbose, ""⟩
  | .keepMultichar => ⟨.emitMultichar, ""⟩
  | .wordLimit number => ⟨.maxIdentLen, number⟩

/-- The number of a flag, if it has one, is at least one. -/
def Fits : OptionFlag → Prop
  | .wordLimit number => ∃ n, readInteger? number = some n ∧ 1 ≤ n
  | _ => True

/-- What a flag gives. -/
def layer : OptionFlag → Layer
  | .verbose => { verbose := some true }
  | .keepMultichar => { keepMultichar := some true }
  | .wordLimit number => { wordLimit := readInteger? number }

/-- A request with a flag in front of it. -/
def under : OptionFlag → Request → Request
  | .verbose, r => { r with verbose := true }
  | .keepMultichar, r => { r with keepMultichar := true }
  | .wordLimit number, r => { r with wordLimit := r.wordLimit.or (readInteger? number) }

variable {f : OptionFlag} {flags : List OptionFlag} {args : List String} {r : Request}

theorem readParts_arguments (f : OptionFlag) (args : List String) :
    readParts (f.arguments ++ args) = (readParts args).map (·.behind f.given) := by
  cases f <;> rfl

theorem exists_number {number : String} (h : (wordLimit number).Fits) :
    ∃ n, positiveInteger number = some n ∧ readInteger? number = some n := by
  obtain ⟨n, hn, hpos⟩ := h
  exact ⟨n, by simp [positiveInteger, readInteger?_eq_some.mp hn, hpos], hn⟩

theorem requestOfParts_behind (hf : f.Fits) (p : Parts) :
    requestOfParts (p.behind f.given) = (requestOfParts p).map f.under := by
  -- Whichever of the three the flag is, all that is read from other options stays as it was.
  have hoperands : (p.behind f.given).operands = p.operands := rfl
  have hformat : optionValue (p.behind f.given) .format (choose formatChoices) =
      optionValue p .format (choose formatChoices) :=
    Parts.optionValue_behind_other (by cases f <;> nofun)
  have hlog : optionValue (p.behind f.given) .logLevel (choose logLevelChoices) =
      optionValue p .logLevel (choose logLevelChoices) :=
    Parts.optionValue_behind_other (by cases f <;> nofun)
  have houtput : (p.behind f.given).value? .output = p.value? .output :=
    Parts.value?_behind_other (by cases f <;> nofun)
  have htables : (p.behind f.given).value? .tables = p.value? .tables :=
    Parts.value?_behind_other (by cases f <;> nofun)
  have hcolor : (p.behind f.given).switch? .color .noColor = p.switch? .color .noColor :=
    Parts.switch?_behind_other (by cases f <;> nofun) (by cases f <;> nofun)
  simp only [requestOfParts, hoperands, hformat, hlog, houtput, htables, hcolor]
  split
  · simp only [Option.bind_eq_bind, Option.map_bind, Function.comp_def]
    cases f with
    | verbose =>
      rw [Parts.optionValue_behind_other (show Flag.verbose ≠ .maxIdentLen by decide)]
      rfl
    | keepMultichar =>
      rw [Parts.optionValue_behind_other (show Flag.emitMultichar ≠ .maxIdentLen by decide)]
      rfl
    | wordLimit number =>
      obtain ⟨n, hn, hread⟩ := exists_number hf
      rw [given, Parts.optionValue_behind_own hn]
      simp only [Option.bind_map, Function.comp_def, pure, Option.map_some, under, hread]
      rfl
  · rfl

/-- **A flag in front of a command line is understood.** -/
theorem demand_arguments (hf : f.Fits) (h : demand args = some (.scan r)) :
    demand (f.arguments ++ args) = some (.scan (f.under r)) := by
  unfold demand at h ⊢
  rw [readParts_arguments]
  cases hparts : readParts args with
  | none => simp [hparts] at h
  | some p =>
    simp only [hparts, Option.bind_eq_bind, Option.bind_some, Option.map_some] at h ⊢
    have hfind : (p.behind f.given).given.find? (fun g => g.flag == .version || g.flag == .help) =
        p.given.find? (fun g => g.flag == .version || g.flag == .help) := by
      cases f <;> rfl
    rw [hfind]
    cases hask : p.given.find? (fun g => g.flag == .version || g.flag == .help) with
    | none =>
      rw [hask] at h
      obtain ⟨r', hr', heq⟩ := Option.bind_eq_some_iff.mp h
      cases heq
      simp [requestOfParts_behind hf, hr']
    | some g =>
      rw [hask] at h
      have hdemand : (if (g.flag == .version) = true then Demand.version else .help) = .scan r :=
        Option.some.inj h
      split at hdemand <;> cases hdemand

theorem demand_flags (hflags : ∀ f ∈ flags, f.Fits) (h : demand args = some (.scan r)) :
    demand (flags.flatMap arguments ++ args) = some (.scan (flags.foldr under r)) := by
  induction flags with
  | nil => exact h
  | cons f flags ih =>
    rw [List.flatMap_cons, List.append_assoc, List.foldr_cons]
    exact demand_arguments (hflags f List.mem_cons_self)
      (ih fun g hg => hflags g (List.mem_cons_of_mem f hg))

/-- What a request says itself lies over a flag in front of it. -/
theorem layer_under (f : OptionFlag) (s : Settings) :
    (f.under r).layer.over s = r.layer.over (f.layer.over s) := by
  cases f with
  | verbose =>
    simp only [under, Request.layer, layer, Layer.over]
    cases r.verbose <;> rfl
  | keepMultichar =>
    simp only [under, Request.layer, layer, Layer.over]
    cases r.keepMultichar <;> rfl
  | wordLimit number =>
    simp only [under, Request.layer, layer, Layer.over]
    cases r.wordLimit <;> rfl

theorem layer_flags (flags : List OptionFlag) (s : Settings) :
    (flags.foldr under r).layer.over s =
      r.layer.over (flags.foldl (fun s f => f.layer.over s) s) := by
  induction flags generalizing s with
  | nil => rfl
  | cons f flags ih => rw [List.foldr_cons, List.foldl_cons, layer_under, ih]

theorem pathsFit_flags (flags : List OptionFlag) (look : Lookup) :
    pathsFit (flags.foldr under r) look = pathsFit r look := by
  induction flags with
  | nil => rfl
  | cons f flags ih =>
    rw [List.foldr_cons, ← ih]
    cases f <;> rfl

end OptionFlag

end CLexer.Command
