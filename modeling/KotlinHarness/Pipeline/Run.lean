/-
  Pipelines: stages in a row, with hooks around each stage that runs.

  A stage that is not needed is skipped.  The first stage that does not end with `ok` ends the
  run, and so does a failure of a stage or hook.

  While stages that use the Kotlin front end run, a system property is set for them.  One scope is
  shared by front-end stages with only skipped stages in between; it ends before any other stage
  runs and with the run.  `runFrom` carries the scope that is open.
-/
import KotlinHarness.Pipeline.Context

namespace KotlinHarness

/-- A stage of a pipeline. -/
structure Stage (σ : Type) where
  name : String
  /-- Whether there is anything to do. -/
  isNeeded : Context σ → Bool
  /-- Whether the Kotlin front end runs in it. -/
  usesFrontend : Bool
  run : ContextAction σ ExitCode

/-- What is called around every stage that runs. -/
structure Hook (σ : Type) where
  name : String
  before : String → ContextAction σ Unit := fun _ => pure ()
  after : String → ExitCode → ContextAction σ Unit := fun _ _ => pure ()

/-- Stages and hooks, in the order in which they are called. -/
structure Pipeline (σ : Type) where
  stages : List (Stage σ)
  hooks : List (Hook σ)

namespace Pipeline

variable {σ : Type}

/-- Calls hooks before a stage. -/
def callBefore (stage : String) : List (Hook σ) → ContextAction σ Unit
  | [] => pure ()
  | hook :: rest => do
    Context.during (.hookBefore hook.name stage) (hook.before stage)
    callBefore stage rest

/-- Calls hooks after a stage. -/
def callAfter (stage : String) (code : ExitCode) : List (Hook σ) → ContextAction σ Unit
  | [] => pure ()
  | hook :: rest => do
    Context.during (.hookAfter hook.name stage) (hook.after stage code)
    callAfter stage code rest

/-- Runs a stage between its hooks and records how it ended. -/
def runStage (hooks : List (Hook σ)) (stage : Stage σ) : ContextAction σ ExitCode := do
  callBefore stage.name hooks
  let code ← Context.during (.runningStage stage.name) stage.run
  modify (·.noted stage.name (.ran code))
  callAfter stage.name code hooks
  pure code

/-! ## The property of the front end -/

/-- The value that the property has while the front end runs. -/
def frontendPropertyValue : String := "false"

/-- Ends the scope that is open. -/
def closeScope (scope : Option ScopeId) (context : Context σ) : Context σ :=
  match scope with
  | some scope =>
    { context with machine := context.machine.closeScope scope Properties.nativeFileSystem }
  | none => context

/-- Sets the property, unless a scope is open already. -/
def openScope (scope : Option ScopeId) (context : Context σ) : Option ScopeId × Context σ :=
  match scope with
  | some scope => (some scope, context)
  | none =>
    let (scope, machine) :=
      context.machine.openScope Properties.nativeFileSystem frontendPropertyValue
    (some scope, { context with machine })

/-- The scope and context in which a stage runs. -/
def scopeFor (stage : Stage σ) (scope : Option ScopeId) (context : Context σ) :
    Option ScopeId × Context σ :=
  if stage.usesFrontend then openScope scope context else (none, closeScope scope context)

/-! ## The run -/

/-- Runs stages in turn, with a scope open. -/
def runFrom (hooks : List (Hook σ)) : Option ScopeId → List (Stage σ) → ContextAction σ ExitCode
  | scope, [], context => .ok .ok (closeScope scope context)
  | scope, stage :: rest, context =>
    if stage.isNeeded context then
      let (scope, context) := scopeFor stage scope context
      match runStage hooks stage context with
      | .error cause context => .error cause (closeScope scope context)
      | .ok code context =>
        if code.isOk then runFrom hooks scope rest context
        else .ok code (closeScope scope context)
    else runFrom hooks scope rest (context.noted stage.name .skipped)

/-- Runs all stages: the exit code of the first that does not succeed, or `ok`. -/
def run (pipeline : Pipeline σ) : ContextAction σ ExitCode :=
  runFrom pipeline.hooks none pipeline.stages

end Pipeline

end KotlinHarness
