/-
  Compiler plugins, found through listings, and the one that runs annotation processors.

  A directory on the plugin class path lists its plugins by name, one on a line, in a file below
  `META-INF/services`.  The only plugin known here is the one for annotation processing: it takes
  the registration installed on its thread, since the front end that calls it does not know about
  it.
-/
import KotlinHarness.Machine
import KotlinHarness.Processing.Rounds
import KotlinHarness.Toolchain.ExitCode
import KotlinHarness.Workspace.Staging

namespace KotlinHarness

/-- A plugin that can be called by name. -/
inductive Plugin where
  /-- Runs the annotation processors of the thread's registration. -/
  | annotationProcessing
  deriving DecidableEq, Inhabited

namespace Plugin

/-- The interface under which plugins are listed. -/
def interface : String := "org.jetbrains.kotlin.compiler.plugin.ComponentRegistrar"

def name : Plugin → String
  | annotationProcessing => "kapt"

/-- The name in listings. -/
def listedName : Plugin → String
  | annotationProcessing => "kompile.KaptComponentRegistrar"

def ofListedName? (text : String) : Option Plugin :=
  if text = annotationProcessing.listedName then some annotationProcessing else none

/-- The listing of a directory on the plugin class path. -/
def listing (directory : Path) : Path := directory / "META-INF" / "services" / interface

/-- Lists the plugin for annotation processing in a directory. -/
def register (directory : Path) : EnvironmentAction Unit := do
  let content := annotationProcessing.listedName ++ "\n"
  let _ ← (Environment.deposit .ifChanged (listing directory) content).during .registeringPlugin

/-- The names in a listing; a number sign starts a comment. -/
def listedNames (content : String) : List String :=
  let bare := (Text.lines content.toList).map fun line => Text.trim (line.takeWhile (· != '#'))
  (bare.filter (! ·.isEmpty)).map String.ofList

/-- The known plugins that a directory lists, in order; none without a listing. -/
def listedIn (env : Environment) (directory : Path) : Except Failure (List Plugin) :=
  if env.isDirectory directory && env.isFile (listing directory) then
    match env.readText (listing directory) with
    | .ok content => .ok ((listedNames content).filterMap ofListedName?)
    | .error cause => .error (.during (.reading (listing directory)) (.io cause))
  else .ok []

/-- The known plugins on a plugin class path, in order. -/
def discover (env : Environment) : List Path → Except Failure (List Plugin)
  | [] => .ok []
  | entry :: rest =>
    match listedIn env entry with
    | .error cause => .error cause
    | .ok first =>
      match discover env rest with
      | .error cause => .error cause
      | .ok others => .ok (first ++ others)

end Plugin

namespace Processing

variable {σ : Type}

/-- The line printed about a processor that failed. -/
def failureLine (processor : String) (cause : Failure) : String :=
  "error: annotation processor " ++ processor ++ " failed: " ++ cause.line

/-- Prints what was reported and tells how the run went. -/
def conclude (ending : RoundsEnding) (diagnostics : Collector) : MachineAction σ ExitCode :=
  match ending with
  | .over => do
    Machine.printDiagnostics diagnostics.all
    pure (if diagnostics.hasErrors then .compilationError else .ok)
  | .failed processor cause => do
    Machine.printDiagnostics diagnostics.all
    Machine.printLine (failureLine processor cause)
    pure .compilationError
  | .unreadable cause => throw cause
  | .exhausted => throw .roundsExhausted

/-- Runs the processors of a registration over the declarations of `inputs`, round after round. -/
def process (registration : Registration σ) (inputs : List Path) : MachineAction σ ExitCode :=
  fun machine =>
    match Round.ofFiles machine.environment inputs with
    | .error cause => .error cause machine
    | .ok first =>
      let start := Processing.start registration machine.environment machine.client
      let (ending, run) := runRounds registration.processors machine.roundLimit first start
      conclude ending run.diagnostics
        { machine with environment := run.environment, client := run.client }

/-- What processors are offered first: Java sources, then stubs, then Kotlin sources. -/
def inputs (env : Environment) (args : FrontendArguments) (registration : Registration σ) :
    List Path :=
  args.javaSources ++ findSources env registration.directories.stubs .java ++ args.sources

end Processing

namespace Plugin

variable {σ : Type}

/-- Runs a plugin within one call of a front end. -/
def run (args : FrontendArguments) : Plugin → MachineAction σ ExitCode
  | annotationProcessing => do
    let machine ← get
    match machine.registration? with
    | some registration =>
      Processing.process registration (Processing.inputs machine.environment args registration)
    | none =>
      Machine.printLine "error: no annotation processing registration is installed on this thread"
      pure .internalError

/-- Runs plugins in turn, up to the first that does not succeed. -/
def runInTurn (args : FrontendArguments) : List Plugin → MachineAction σ ExitCode
  | [] => pure .ok
  | plugin :: rest => do
    let code ← plugin.run args
    if code.isOk then runInTurn args rest else pure code

/-- Runs the plugins found on the plugin class path of a call. -/
def runAll (args : FrontendArguments) : MachineAction σ ExitCode := do
  match discover (← get).environment args.pluginClasspaths with
  | .error cause => throw cause
  | .ok plugins => runInTurn args plugins

end Plugin

end KotlinHarness
