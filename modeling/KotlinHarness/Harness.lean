/-
  The compile call: in-memory sources through annotation processing, Kotlin and Java compilers.

  A call settles the configuration, creates the workspace, stages the sources and runs the three
  stages.  What the compilers complain about is in the result; a failure means that there is no
  result.
-/
import KotlinHarness.ClassLoader
import KotlinHarness.Pipeline.Stages

namespace KotlinHarness

/-- What a compile call produced; the listings are those of its end. -/
structure CompilationResult where
  exitCode : ExitCode
  /-- The classes directory of the workspace. -/
  outputDirectory : Path
  /-- Everything the stages printed, in order. -/
  messages : String
  classpath : List Path
  /-- The files below the output directory. -/
  generatedFiles : List Path
  /-- The sources that processors wrote. -/
  processorSources : List Path
  deriving Inhabited

namespace CompilationResult

/-- The result of a call that ended in `env`. -/
def take (env : Environment) (resolution : Resolution) (exitCode : ExitCode) (messages : String) :
    CompilationResult where
  exitCode := exitCode
  outputDirectory := resolution.classesDir
  messages := messages
  classpath := resolution.classpath
  generatedFiles := env.listFiles resolution.classesDir
  processorSources :=
    env.listFiles resolution.workspace.generatedJava ++ env.listFiles resolution.generatedKotlinDir

/-- A loader of the compiled classes; its parent has the directories of the class path. -/
def classLoader (result : CompilationResult) (env : Environment) : ClassLoader :=
  ⟨[result.outputDirectory], [result.classpath.filter env.isDirectory]⟩

end CompilationResult

/-- A configuration with the tools that compile it. -/
structure Harness (σ : Type) where
  config : Compilation
  /-- Annotation processors; with any, annotation processing is enabled. -/
  processors : List (Processor σ)
  frontend : Frontend σ
  /-- Replaces the host's compiler when the configuration names no JDK. -/
  javaService : Option (JavaService σ)
  host : Host
  hooks : List (Hook σ)
  /-- Where messages are printed. -/
  sink : Sink σ
  /-- The stages visited by the last call that gave a result. -/
  lastStages : List StageRecord

namespace Harness

variable {σ : Type}

/-- The tools of the host for a configuration. -/
def ofConfig (config : Compilation) (sink : Sink σ) : Harness σ where
  config := config
  processors := []
  frontend := (Launcher.mk config.kotlinc).frontend
  javaService := none
  host := .system
  hooks := []
  sink := sink
  lastStages := []

/-- Whether annotation processing is enabled. -/
def needsKapt (harness : Harness σ) : Bool := !harness.processors.isEmpty

/-- Settles the configuration. -/
def resolve (harness : Harness σ) : EnvironmentAction Resolution := fun env =>
  match Resolution.resolve harness.config harness.host harness.needsKapt env with
  | .ok resolution env => .ok resolution env
  | .error cause env => .error (.config cause) env

/-- Settles the configuration, creates the workspace and stages the sources. -/
def prepare (harness : Harness σ) : EnvironmentAction (Resolution × List StagedSource) := do
  let resolution ← harness.resolve
  resolution.workspace.create
  let staged ← SourceUnit.stageAll resolution.workspace.sources resolution.config.sources
  pure (resolution, staged)

/-- The stages and hooks of a call. -/
def pipeline (harness : Harness σ) (env : Environment) (resolution : Resolution) : Pipeline σ :=
  let registration :=
    if harness.needsKapt then some (Registration.ofResolution harness.processors resolution)
    else none
  .standard harness.frontend registration (.select env resolution harness.javaService) harness.hooks

/-- Runs the stages: the exit code and the stages visited. -/
def runStages (harness : Harness σ) (resolution : Resolution) (staged : List StagedSource) :
    MachineAction σ (ExitCode × List StageRecord) := fun machine =>
  match (harness.pipeline machine.environment resolution).run ⟨machine, resolution, staged, []⟩ with
  | .ok code context => .ok (code, context.records) context.machine
  | .error cause context => .error cause context.machine

/-- Ends the message stream: everything that was printed. -/
def endMessages : MachineAction σ String := fun machine =>
  match machine.messages.finish machine.client with
  | (.ok text, client) => .ok text { machine with client }
  | (.error cause, client) => .error (.during .endingMessages (.io cause)) { machine with client }

/-- One call, on a machine whose message stream belongs to it. -/
def callOn (harness : Harness σ) : MachineAction σ (CompilationResult × List StageRecord) := do
  let (resolution, staged) ← Machine.onEnvironment harness.prepare
  let (code, records) ← harness.runStages resolution staged
  let messages ← endMessages
  let machine ← get
  pure (.take machine.environment resolution code messages, records)

/-- One call with a message stream of its own. -/
def call (harness : Harness σ) : MachineAction σ (CompilationResult × List StageRecord) :=
  fun machine =>
    match harness.callOn { machine with messages := .ofSink harness.sink } with
    | .ok value after => .ok value { after with messages := machine.messages }
    | .error cause after => .error cause { after with messages := machine.messages }

/-- Compiles: the result or the failure, and harness and machine as they are afterwards. -/
def compile (harness : Harness σ) (machine : Machine σ) :
    Except Failure CompilationResult × Harness σ × Machine σ :=
  match harness.call machine with
  | .ok (result, records) machine => (.ok result, { harness with lastStages := records }, machine)
  | .error cause machine => (.error cause, harness, machine)

end Harness

end KotlinHarness
