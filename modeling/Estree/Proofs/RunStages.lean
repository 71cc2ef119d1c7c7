import Estree.CommandLine.Run
import Estree.Proofs.OptionsReading

namespace Estree

-- The source text of the tree that a JSON text describes.
def Node.printText (text : String) (options : PrintOptions) :
    Except (ReadError ⊕ Unsupported) String := do
  let tree ← (Node.ofText text).mapError .inl
  (tree.print options).mapError .inr

namespace CommandLine

-- What a run reads.
inductive Origin where
  | file (path : String)
  | standardInput
  deriving DecidableEq

namespace Origin

def bytes (sources : Sources Id) : Origin → Except ReadFailure ByteArray
  | .file path => sources.file path
  | .standardInput => sources.input

def read (sources : Sources Id) (origin : Origin) : Except ReadFailure String :=
  (origin.bytes sources).bind asText

-- What it is called in messages.
def name : Origin → String
  | .file path => path
  | .standardInput => "<stdin>"

def unreadable : Origin → ReadFailure → RunError
  | .file path => .unreadableFile path
  | .standardInput => .unreadableInput

end Origin

-- What a run does, one after another.
inductive Stage where
  | readOptions (path : String)
  | parseOptions (path : String)
  | readTree (origin : Origin)
  | printTree (origin : Origin)

namespace Arguments

-- The tree is read from the file that is named, unless there is none or it is a dash.
def origin (arguments : Arguments) : Origin :=
  match arguments.file with
  | none => .standardInput
  | some path => if path = "-" then .standardInput else .file path

def optionStages (arguments : Arguments) : List Stage :=
  match arguments.options with
  | none => []
  | some path => [.readOptions path, .parseOptions path]

def stages (arguments : Arguments) : List Stage :=
  arguments.optionStages ++ [.readTree arguments.origin, .printTree arguments.origin]

-- What the options file gives for a setting.
def given? (sources : Sources Id) (arguments : Arguments) (setting : PrintOptions.Setting) :
    Option String := do
  let path ← arguments.options
  let text ← ((Origin.file path).read sources).toOption
  let value ← (Json.parse text).toOption
  PrintOptions.given? value setting

-- The options of the options file over the defaults. An indent width on the command line counts
-- for the indent unit, and for nothing else.
def expectedOptions (sources : Sources Id) (arguments : Arguments) : PrintOptions where
  indentUnit :=
    match arguments.indent with
    | some width => String.ofList (List.replicate width ' ')
    | none => (arguments.given? sources .indentUnit).getD ({} : PrintOptions).indentUnit
  continuationIndent :=
    (arguments.given? sources .continuationIndent).getD ({} : PrintOptions).continuationIndent

end Arguments

namespace Stage

-- How a failure of the stage is reported.
def context : Stage → String
  | .readOptions path => "failed to read " ++ path
  | .parseOptions path => "failed to parse options file " ++ path
  | .readTree (.file path) => "failed to read " ++ path
  | .readTree .standardInput => "failed to read standard input"
  | .printTree origin => "failed to print " ++ origin.name

def reads? : Stage → Option Origin
  | .readOptions path => some (.file path)
  | .readTree origin => some origin
  | .parseOptions _ | .printTree _ => none

-- Whether the stage is done, if those before it are.
def passes (sources : Sources Id) (arguments : Arguments) : Stage → Bool
  | .readOptions path => ((Origin.file path).read sources).isOk
  | .parseOptions path => (((Origin.file path).read sources).toOption.any fun text =>
      (PrintOptions.ofText text).isOk)
  | .readTree origin => (origin.read sources).isOk
  | .printTree origin => ((origin.read sources).toOption.any fun text =>
      (Node.printText text (arguments.expectedOptions sources)).isOk)

end Stage

namespace RunError

def ofPrint (name : String) : ReadError ⊕ Unsupported → RunError
  | .inl cause => .badTree name cause
  | .inr cause => .unsupported name cause

end RunError

-- What comes out where all is known that can be read.
def outcome {α : Type} (action : ExceptT RunError Id α) : Except RunError α :=
  Id.run action.run

section Outcome

variable {α β : Type}

@[simp] theorem outcome_bind (action : ExceptT RunError Id α) (next : α → ExceptT RunError Id β) :
    outcome (action >>= next) = outcome action >>= fun value => outcome (next value) := by
  rw [outcome, ExceptT.run_bind]
  cases h : outcome action with
  | error failure =>
    change action.run = _ at h
    rw [h]
    rfl
  | ok value =>
    change action.run = _ at h
    rw [h]
    rfl

@[simp] theorem outcome_map (f : α → β) (action : ExceptT RunError Id α) :
    outcome (f <$> action) = (outcome action).map f := by
  rw [map_eq_pure_bind, outcome_bind]
  cases outcome action <;> rfl

@[simp] theorem outcome_ofExcept (result : Except RunError α) :
    outcome (MonadExcept.ofExcept result) = result := by
  cases result <;> rfl

end Outcome

section Reading

variable (sources : Sources Id) (arguments : Arguments)

@[simp] theorem outcome_readFile (path : String) :
    outcome (readFile sources path) =
      ((Origin.file path).read sources).mapError (Origin.file path).unreadable := rfl

@[simp] theorem outcome_readInput :
    outcome (readInput sources) =
      (Origin.standardInput.read sources).mapError Origin.standardInput.unreadable := rfl

theorem outcome_loadOptions (path : String) :
    outcome (loadOptions sources path) =
      ((Origin.file path).read sources).mapError (Origin.file path).unreadable >>= fun text =>
        (PrintOptions.ofText text).mapError (.badOptions path) := by
  simp [loadOptions]

theorem Arguments.origin_eq :
    arguments.origin = (arguments.inputPath.map Origin.file).getD .standardInput := by
  unfold Arguments.origin Arguments.inputPath
  cases arguments.file with
  | none => rfl
  | some path =>
    by_cases hdash : path = "-"
    · simp [hdash, Option.filter]
    · simp [hdash, Option.filter]

theorem outcome_readTree :
    outcome (readTree sources arguments) =
      ((arguments.origin.read sources).mapError arguments.origin.unreadable).map
        (·, arguments.origin.name) := by
  rw [Arguments.origin_eq, readTree]
  cases arguments.inputPath <;> simp [Origin.name]

-- A run is its options, the text of the tree, and the printed text, in this order.
theorem outcome_run :
    outcome (run sources arguments) =
      outcome (resolveOptions sources arguments) >>= fun options =>
        (arguments.origin.read sources).mapError arguments.origin.unreadable >>= fun text =>
          (Node.printText text options).mapError (.ofPrint arguments.origin.name) := by
  simp only [run, outcome_bind, outcome_readTree, outcome_ofExcept]
  congr 1
  funext options
  cases (arguments.origin.read sources).mapError arguments.origin.unreadable with
  | error failure => rfl
  | ok text =>
    change (Node.ofText text).mapError _ >>= _ = (Node.printText text options).mapError _
    unfold Node.printText
    cases Node.ofText text with
    | error cause => rfl
    | ok tree =>
      cases hprint : tree.print options <;>
        simp [Except.mapError, ok_bind, hprint, RunError.ofPrint]

theorem outcome_resolveOptions :
    outcome (resolveOptions sources arguments) =
      (arguments.options.elim (.ok {}) fun path => outcome (loadOptions sources path)).map
        fun loaded => arguments.indent.elim loaded loaded.withIndentWidth := by
  unfold resolveOptions
  cases arguments.options with
  | none => cases arguments.indent <;> rfl
  | some path =>
    rw [outcome_bind, Option.elim_some]
    cases outcome (loadOptions sources path) <;> cases arguments.indent <;> rfl

end Reading

section Passing

variable {ε ε' α β : Type}

theorem isOk_eq_true_iff {result : Except ε α} :
    result.isOk = true ↔ ∃ value, result = .ok value := by
  cases result <;> simp [Except.isOk, Except.toBool]

theorem isOk_eq_false_iff {result : Except ε α} :
    result.isOk = false ↔ ∃ failure, result = .error failure := by
  cases result <;> simp [Except.isOk, Except.toBool]

theorem any_isOk_eq_true_iff {result : Except ε α} {next : α → Except ε' β} :
    result.toOption.any (fun value => (next value).isOk) = true ↔
      ∃ value answer, result = .ok value ∧ next value = .ok answer := by
  cases result <;> simp [Except.toOption, isOk_eq_true_iff]

end Passing

variable {sources other : Sources Id} {arguments : Arguments}

theorem pushn_empty (width : Nat) :
    "".pushn ' ' width = String.ofList (List.replicate width ' ') := by
  apply String.toList_inj.mp
  rw [String.toList_ofList]
  induction width with
  | zero => rfl
  | succ width ih =>
    have hpush : "".pushn ' ' (width + 1) = ("".pushn ' ' width).push ' ' := rfl
    rw [hpush, String.toList_push, ih, List.replicate_succ']

-- Where the options file is read as options, they are the expected ones.
theorem outcome_resolveOptions_of_passes
    (h : ∀ stage ∈ arguments.optionStages, stage.passes sources arguments = true) :
    outcome (resolveOptions sources arguments) = .ok (arguments.expectedOptions sources) := by
  have hresolved (loaded : PrintOptions)
      (hload : (arguments.options.elim (.ok {}) fun path => outcome (loadOptions sources path)) =
        .ok loaded)
      (hgiven : ∀ setting, loaded.get setting =
        (arguments.given? sources setting).getD (PrintOptions.get {} setting)) :
      outcome (resolveOptions sources arguments) = .ok (arguments.expectedOptions sources) := by
    obtain ⟨unit, continuation⟩ := loaded
    obtain rfl : unit = _ := hgiven .indentUnit
    obtain rfl : continuation = _ := hgiven .continuationIndent
    rw [outcome_resolveOptions, hload, Arguments.expectedOptions]
    cases arguments.indent with
    | none => rfl
    | some width =>
      simp only [← pushn_empty]
      rfl
  cases hoptions : arguments.options with
  | none =>
    refine hresolved {} (by rw [hoptions]; rfl) ?_
    intro setting
    rw [Arguments.given?, hoptions]
    rfl
  | some path =>
    rw [Arguments.optionStages, hoptions] at h
    obtain ⟨text, loaded, hread, htext⟩ :=
      any_isOk_eq_true_iff.mp (h (.parseOptions path) (by simp))
    obtain ⟨value, hvalue, hgiven⟩ := PrintOptions.exists_value_of_ofText htext
    refine hresolved loaded ?_ ?_
    · rw [hoptions, Option.elim_some, outcome_loadOptions, hread]
      simp [Except.mapError, htext, ok_bind]
    · intro setting
      rw [hgiven, Arguments.given?, hoptions]
      simp [hread, hvalue, Except.toOption]

theorem outcome_resolveOptions_of_unread {path : String} (hoptions : arguments.options = some path)
    (hfails : (Stage.readOptions path).passes sources arguments = false) :
    ∃ error, outcome (resolveOptions sources arguments) = .error error ∧
      error.context = (Stage.readOptions path).context := by
  obtain ⟨failure, hread⟩ := isOk_eq_false_iff.mp hfails
  refine ⟨.unreadableFile path failure, ?_, rfl⟩
  rw [outcome_resolveOptions, hoptions, Option.elim_some, outcome_loadOptions, hread]
  rfl

theorem outcome_resolveOptions_of_unparsed {path : String}
    (hoptions : arguments.options = some path)
    (hpasses : (Stage.readOptions path).passes sources arguments = true)
    (hfails : (Stage.parseOptions path).passes sources arguments = false) :
    ∃ error, outcome (resolveOptions sources arguments) = .error error ∧
      error.context = (Stage.parseOptions path).context := by
  obtain ⟨text, hread⟩ := isOk_eq_true_iff.mp hpasses
  rw [Stage.passes, hread] at hfails
  obtain ⟨cause, htext⟩ := isOk_eq_false_iff.mp hfails
  refine ⟨.badOptions path cause, ?_, rfl⟩
  rw [outcome_resolveOptions, hoptions, Option.elim_some, outcome_loadOptions, hread]
  simp [Except.mapError, htext, ok_bind, Except.map]

theorem outcome_run_of_unread {options : PrintOptions}
    (hoptions : outcome (resolveOptions sources arguments) = .ok options)
    (hfails : (Stage.readTree arguments.origin).passes sources arguments = false) :
    ∃ error, outcome (run sources arguments) = .error error ∧
      error.context = (Stage.readTree arguments.origin).context := by
  obtain ⟨failure, hread⟩ := isOk_eq_false_iff.mp hfails
  refine ⟨arguments.origin.unreadable failure, ?_, ?_⟩
  · rw [outcome_run, hoptions, hread]
    rfl
  · cases arguments.origin <;> rfl

-- Once the options and the text of the tree are there, the run prints.
theorem outcome_run_of_read {options : PrintOptions} {text : String}
    (hoptions : outcome (resolveOptions sources arguments) = .ok options)
    (hread : arguments.origin.read sources = .ok text) :
    outcome (run sources arguments) =
      (Node.printText text options).mapError (.ofPrint arguments.origin.name) := by
  rw [outcome_run, hoptions, hread]
  rfl

theorem outcome_run_of_unprinted
    (hoptions : outcome (resolveOptions sources arguments) =
      .ok (arguments.expectedOptions sources))
    (hpasses : (Stage.readTree arguments.origin).passes sources arguments = true)
    (hfails : (Stage.printTree arguments.origin).passes sources arguments = false) :
    ∃ error, outcome (run sources arguments) = .error error ∧
      error.context = (Stage.printTree arguments.origin).context := by
  obtain ⟨text, hread⟩ := isOk_eq_true_iff.mp hpasses
  rw [Stage.passes, hread] at hfails
  obtain ⟨cause, hprint⟩ := isOk_eq_false_iff.mp hfails
  refine ⟨.ofPrint arguments.origin.name cause, ?_, ?_⟩
  · rw [outcome_run_of_read hoptions hread, hprint]
    rfl
  · cases cause <;> rfl

-- The options depend on the options file only.
theorem outcome_resolveOptions_congr
    (h : ∀ path, arguments.options = some path → other.file path = sources.file path) :
    outcome (resolveOptions other arguments) = outcome (resolveOptions sources arguments) := by
  rw [outcome_resolveOptions, outcome_resolveOptions]
  cases hoptions : arguments.options with
  | none => rfl
  | some path =>
    have hread : (Origin.file path).read other = (Origin.file path).read sources :=
      congrArg (·.bind asText) (h path hoptions)
    rw [Option.elim_some, Option.elim_some, outcome_loadOptions, outcome_loadOptions, hread]

-- A run depends on the options file and on where the tree is read from.
theorem outcome_run_congr
    (hoptions : ∀ path, arguments.options = some path → other.file path = sources.file path)
    (horigin : arguments.origin.bytes other = arguments.origin.bytes sources) :
    outcome (run other arguments) = outcome (run sources arguments) := by
  have hread : arguments.origin.read other = arguments.origin.read sources :=
    congrArg (·.bind asText) horigin
  rw [outcome_run, outcome_run, outcome_resolveOptions_congr hoptions, hread]

-- Where a stage can stand among the stages of a run.
theorem stage_cases {passed later : List Stage} {stage : Stage}
    (h : arguments.stages = passed ++ stage :: later) :
    (∃ path, arguments.options = some path ∧ passed = [] ∧ stage = .readOptions path) ∨
      (∃ path, arguments.options = some path ∧ passed = [.readOptions path] ∧
        stage = .parseOptions path) ∨
      (passed = arguments.optionStages ∧ stage = .readTree arguments.origin) ∨
      (passed = arguments.optionStages ++ [.readTree arguments.origin] ∧
        stage = .printTree arguments.origin) := by
  unfold Arguments.stages Arguments.optionStages at h
  unfold Arguments.optionStages
  generalize arguments.options = options at h ⊢
  cases options with
  | none => rcases passed with _ | ⟨first, _ | ⟨second, passed⟩⟩ <;> simp_all
  | some path =>
    rcases passed with _ | ⟨first, _ | ⟨second, _ | ⟨third, _ | ⟨fourth, passed⟩⟩⟩⟩ <;> simp_all

-- The options file is among what the stages of the options read.
theorem bytes_eq_of_options {origins : List Origin}
    (h : ∀ origin ∈ arguments.optionStages.filterMap Stage.reads? ++ origins,
      origin.bytes other = origin.bytes sources) (path : String)
    (hoptions : arguments.options = some path) : other.file path = sources.file path := by
  apply h (.file path)
  simp [Arguments.optionStages, hoptions, Stage.reads?]

-- A run is its stages one after another. The first one that fails is named by the error, which does
-- not depend on what later ones would read. If none fails, the tree is printed with the options of
-- the options file over the defaults, and with the indent width of the command line. The standard
-- input does not count where a file is named.
theorem run_stages (sources : Sources Id) (arguments : Arguments) :
    (∀ passed stage later, arguments.stages = passed ++ stage :: later →
      (∀ earlier ∈ passed, earlier.passes sources arguments = true) →
      stage.passes sources arguments = false →
        ∃ error, outcome (run sources arguments) = .error error ∧
          error.context = stage.context ∧
          ∀ other : Sources Id,
            (∀ origin ∈ (passed ++ [stage]).filterMap Stage.reads?,
              origin.bytes other = origin.bytes sources) →
            outcome (run other arguments) = .error error) ∧
    ((∀ stage ∈ arguments.stages, stage.passes sources arguments = true) →
      ∃ source text, arguments.origin.read sources = .ok source ∧
        Node.printText source (arguments.expectedOptions sources) = .ok text ∧
        outcome (run sources arguments) = .ok text) ∧
    ∀ path, arguments.file = some path → path ≠ "-" → ∀ input,
      outcome (run { sources with input := input } arguments) =
        outcome (run sources arguments) := by
  refine ⟨?_, ?_, ?_⟩
  · intro passed stage later hstages hpassed hfails
    -- an error in the options is the error of the run, and only the options file counts for it
    have hearly {path : String} (hoptions : arguments.options = some path) {error : RunError}
        (herror : outcome (resolveOptions sources arguments) = .error error)
        {other : Sources Id} (hfile : other.file path = sources.file path) :
        outcome (run other arguments) = .error error := by
      have hsame : ∀ named, arguments.options = some named →
          other.file named = sources.file named := by
        intro named hnamed
        obtain rfl : path = named := Option.some.inj (hoptions.symm.trans hnamed)
        exact hfile
      rw [outcome_run, outcome_resolveOptions_congr hsame, herror]
      rfl
    rcases stage_cases hstages with ⟨path, hoptions, rfl, rfl⟩ | ⟨path, hoptions, rfl, rfl⟩ |
      ⟨rfl, rfl⟩ | ⟨rfl, rfl⟩
    · obtain ⟨error, herror, hcontext⟩ := outcome_resolveOptions_of_unread hoptions hfails
      refine ⟨error, hearly hoptions herror rfl, hcontext, fun other hother => ?_⟩
      exact hearly hoptions herror (hother (.file path) (by simp [Stage.reads?]))
    · obtain ⟨error, herror, hcontext⟩ :=
        outcome_resolveOptions_of_unparsed hoptions (hpassed _ (by simp)) hfails
      refine ⟨error, hearly hoptions herror rfl, hcontext, fun other hother => ?_⟩
      exact hearly hoptions herror (hother (.file path) (by simp [Stage.reads?]))
    · obtain ⟨error, herror, hcontext⟩ :=
        outcome_run_of_unread (outcome_resolveOptions_of_passes hpassed) hfails
      refine ⟨error, herror, hcontext, fun other hother => ?_⟩
      rw [List.filterMap_append] at hother
      rw [outcome_run_congr (bytes_eq_of_options hother) (hother _ (by simp [Stage.reads?])),
        herror]
    · rw [List.forall_mem_append] at hpassed
      obtain ⟨error, herror, hcontext⟩ := outcome_run_of_unprinted
        (outcome_resolveOptions_of_passes hpassed.1) (hpassed.2 _ (by simp)) hfails
      refine ⟨error, herror, hcontext, fun other hother => ?_⟩
      rw [List.append_assoc, List.filterMap_append] at hother
      rw [outcome_run_congr (bytes_eq_of_options hother) (hother _ (by simp [Stage.reads?])),
        herror]
  · intro hstages
    rw [Arguments.stages, List.forall_mem_append] at hstages
    obtain ⟨source, text, hread, hprint⟩ :=
      any_isOk_eq_true_iff.mp (hstages.2 (.printTree arguments.origin) (by simp))
    refine ⟨source, text, hread, hprint, ?_⟩
    rw [outcome_run_of_read (outcome_resolveOptions_of_passes hstages.1) hread, hprint]
    rfl
  · intro path hfile hdash input
    have horigin : arguments.origin = .file path := by simp [Arguments.origin, hfile, hdash]
    apply outcome_run_congr
    · intro path _
      rfl
    · rw [horigin]
      rfl

-- Two files that can be read, and a tree on the standard input.
def twoOptionFiles : Sources Id where
  file path :=
    if path = "numbers" then .ok "\x7b\"indentUnit\":4\x7d".toUTF8
    else if path = "tabs" then .ok "\x7b\"indentUnit\":\"\\t\"\x7d".toUTF8
    else .error .notFound
  input := .ok "\x7b\"type\":\"ThisExpression\"\x7d".toUTF8

def twoFaults : Arguments :=
  ⟨some "missing", some "numbers", some 3⟩

def widened : Arguments :=
  ⟨some "-", some "tabs", some 3⟩

-- Of the options, which have a number for a text, and the tree, which is not there, the options are
-- reported. Where nothing fails, the width counts and not the tab.
theorem run_stages_twoOptionFiles :
    ((Stage.readOptions "numbers").passes twoOptionFiles twoFaults = true ∧
      (Stage.parseOptions "numbers").passes twoOptionFiles twoFaults = false ∧
      (Stage.readTree (.file "missing")).passes twoOptionFiles twoFaults = false ∧
      ∃ error, outcome (run twoOptionFiles twoFaults) = .error error ∧
        error.context = "failed to parse options file numbers") ∧
    (widened.stages.all (Stage.passes twoOptionFiles widened) = true ∧
      widened.expectedOptions twoOptionFiles = ⟨"   ", "    "⟩ ∧
      outcome (run twoOptionFiles widened) = .ok "this") := by
  have hread : (Stage.readOptions "numbers").passes twoOptionFiles twoFaults = true := by
    decide +kernel
  have hparse : (Stage.parseOptions "numbers").passes twoOptionFiles twoFaults = false := by
    decide +kernel
  have htree : (Stage.readTree (.file "missing")).passes twoOptionFiles twoFaults = false := rfl
  have hall : widened.stages.all (Stage.passes twoOptionFiles widened) = true := by decide +kernel
  have hoptions : widened.expectedOptions twoOptionFiles = ⟨"   ", "    "⟩ := by decide +kernel
  refine ⟨⟨hread, hparse, htree, ?_⟩, hall, hoptions, ?_⟩
  · obtain ⟨error, herror, hcontext, -⟩ := (run_stages twoOptionFiles twoFaults).1
      [.readOptions "numbers"] (.parseOptions "numbers") _ rfl
      (List.forall_mem_singleton.mpr hread) hparse
    exact ⟨error, herror, hcontext⟩
  · obtain ⟨source, text, hsource, htext, hrun⟩ :=
      (run_stages twoOptionFiles widened).2.1 (List.all_eq_true.mp hall)
    have hinput : widened.origin.read twoOptionFiles =
        .ok "\x7b\"type\":\"ThisExpression\"\x7d" := by cbv
    have hprint : Node.printText "\x7b\"type\":\"ThisExpression\"\x7d" ⟨"   ", "    "⟩ =
        .ok "this" := by cbv
    obtain rfl := Except.ok.inj (hsource.symm.trans hinput)
    rw [hoptions, hprint] at htext
    rw [hrun, ← Except.ok.inj htext]

end CommandLine

end Estree
