/-
  What the stages of one compile call share.
-/
import KotlinHarness.Machine
import KotlinHarness.Toolchain.ExitCode
import KotlinHarness.Workspace.Staging

namespace KotlinHarness

/-- What happened to a stage. -/
inductive StageOutcome where
  | skipped
  | ran (code : ExitCode)
  deriving DecidableEq, Inhabited

/-- A visited stage and what happened to it. -/
structure StageRecord where
  stage : String
  outcome : StageOutcome
  deriving DecidableEq, Inhabited

/-- The state of a compile call. -/
structure Context (σ : Type) where
  machine : Machine σ
  resolution : Resolution
  /-- The staged sources in the order of the configuration. -/
  staged : List StagedSource
  /-- The stages visited so far. -/
  records : List StageRecord

/-- An operation within a compile call. -/
abbrev ContextAction (σ α : Type) := EStateM Failure (Context σ) α

namespace Context

variable {σ : Type}

/-- Where generated sources of a language are. -/
def generatedDir (context : Context σ) : Language → Path
  | .kotlin => context.resolution.generatedKotlinDir
  | .java => context.resolution.workspace.generatedJava

/-- Staged sources of a language, then generated ones. -/
def sourcesOf (context : Context σ) (language : Language) : List Path :=
  StagedSource.ofLanguage language context.staged
    ++ findSources context.machine.environment (context.generatedDir language) language

/-- The context with one more record. -/
def noted (context : Context σ) (stage : String) (outcome : StageOutcome) : Context σ :=
  { context with records := context.records ++ [⟨stage, outcome⟩] }

/-- Does something to the machine. -/
def onMachine {α : Type} (action : MachineAction σ α) : ContextAction σ α := fun context =>
  match action context.machine with
  | .ok value machine => .ok value { context with machine }
  | .error cause machine => .error cause { context with machine }

/-- An action whose failure is told together with what was being done. -/
def during {α : Type} (undertaking : Undertaking) (action : ContextAction σ α) :
    ContextAction σ α :=
  fun context =>
    match action context with
    | .ok value context => .ok value context
    | .error cause context => .error (.during undertaking cause) context

end Context

end KotlinHarness
