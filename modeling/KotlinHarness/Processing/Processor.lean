/-
  Annotation processors, and what they may use.

  A processor is called once in each round.  It works on a `Processing`: the options, the filer,
  the diagnostics reported so far, and, as any code of the user, the files and the client's own
  state.  It fails by raising a failure; what it did before stays done.
-/
import KotlinHarness.Manifest.Compilation
import KotlinHarness.Messages.Diagnostic
import KotlinHarness.Processing.Filer
import KotlinHarness.Processing.Round
import KotlinHarness.Resolution

namespace KotlinHarness

/-- One run of annotation processing, as processors see it. -/
structure Processing (σ : Type) where
  options : Options
  filer : Filer
  diagnostics : Collector
  environment : Environment
  client : σ

/-- What a processor does. -/
abbrev ProcessingAction (σ α : Type) := EStateM Failure (Processing σ) α

/-- An annotation processor. -/
structure Processor (σ : Type) where
  name : String
  process : Round → ProcessingAction σ Unit

/-- Where annotation processing reads from and writes to. -/
structure ProcessingDirectories where
  generatedJava : Path
  generatedKotlin : Path
  stubs : Path
  incrementalData : Path
  classes : Path
  deriving DecidableEq, Inhabited

/-- The processors of a compile call with what they need. -/
structure Registration (σ : Type) where
  processors : List (Processor σ)
  /-- The options processors can ask for; the directory of generated Kotlin sources is one of
      them. -/
  options : Options
  directories : ProcessingDirectories
  correctErrorTypes : Bool

namespace ProcessingDirectories

/-- The directories of a compile call. -/
def ofResolution (resolution : Resolution) : ProcessingDirectories where
  generatedJava := resolution.workspace.generatedJava
  generatedKotlin := resolution.generatedKotlinDir
  stubs := resolution.workspace.stubs
  incrementalData := resolution.workspace.incrementalData
  classes := resolution.workspace.classes

end ProcessingDirectories

namespace Registration

variable {σ : Type}

/-- The registration of processors for a compile call. -/
def ofResolution (processors : List (Processor σ)) (resolution : Resolution) : Registration σ :=
  let directories := ProcessingDirectories.ofResolution resolution
  { processors, directories
    options := resolution.config.kaptArgs.put generatedKotlinOption directories.generatedKotlin.text
    correctErrorTypes := resolution.config.correctErrorTypes }

end Registration

namespace Processing

variable {σ : Type}

/-- The start of a run. -/
def start (registration : Registration σ) (environment : Environment) (client : σ) :
    Processing σ where
  options := registration.options
  filer := .start registration.directories.generatedJava registration.directories.generatedKotlin
  diagnostics := .empty
  environment := environment
  client := client

/-- Creates a source file of a language through the filer. -/
def createSource (language : Language) (name content : String) : ProcessingAction σ Path :=
  fun run =>
    match run.filer.create language name content run.environment with
    | .ok (path, filer) environment => .ok path { run with filer, environment }
    | .error cause environment => .error cause { run with environment }

/-- Reports a diagnostic.  Errors fail the compilation once processing ends. -/
def report (diagnostic : Diagnostic) : ProcessingAction σ Unit :=
  modify fun run => { run with diagnostics := run.diagnostics.report diagnostic }

/-- The run with nothing pending. -/
def settled (run : Processing σ) : Processing σ := { run with filer := run.filer.settled }

end Processing

end KotlinHarness
