/-
  The two ways of compiling Java.

    * `external`   runs the compiler of the configured JDK as a child process
    * `embedded`   without a configured JDK, calls a compiler service, its platform classes erased
-/
import KotlinHarness.JavaCompiler.Arguments
import KotlinHarness.JavaCompiler.Service
import KotlinHarness.Toolchain.Tool

namespace KotlinHarness

/-- A way of compiling Java sources into the classes directory. -/
structure JavaStrategy (σ : Type) where
  name : String
  compile : Resolution → List Path → MachineAction σ ExitCode

namespace JavaStrategy

variable {σ : Type}

/-! ## A JDK of its own -/

/-- The compiler of the JDK at a home. -/
def javacOf (jdkHome : Path) : Path := jdkHome / "bin" / "javac"

/-- Whether a compiler says that it has the module system; an unknown version counts as older. -/
def isModularJavac (env : Environment) (javac : Path) : Bool :=
  ((env.capture? { program := javac, arguments := ["-version"] }).bind
    JavaVersion.ofJavacOutput?).any (·.isModular)

/-- How the compiler of a JDK is run: in the root of the workspace. -/
def externalCommand (env : Environment) (jdkHome : Path) (resolution : Resolution)
    (sources : List Path) : Command where
  program := javacOf jdkHome
  arguments :=
    JavaCompiler.baseArguments resolution (isModularJavac env (javacOf jdkHome))
      ++ sources.map Path.text
  directory := some resolution.workspace.root

/-- Runs the compiler of the JDK at a home. -/
def external (jdkHome : Path) : JavaStrategy σ where
  name := "external"
  compile resolution sources := do
    Machine.runTool ExitCode.ofJavac
      (externalCommand (← get).environment jdkHome resolution sources)

/-! ## A compiler service -/

/-- The arguments of a call of the service. -/
def embeddedArguments (isModular : Bool) (resolution : Resolution) (sources : List Path) :
    List String :=
  JavaCompiler.baseArguments resolution isModular ++ JavaCompiler.erasePlatform isModular
    ++ sources.map Path.text

/-- Calls a service. -/
def callService (service : JavaService σ) (args : List String) : MachineAction σ ServiceAnswer :=
  fun machine =>
    let (answer, machine) := service.compile args machine
    .ok answer machine

/-- The exit code of a service's outcome; breakdowns of the compiler are printed, other failures
    abort the compile call. -/
def exitCodeOf : Except ServiceError Bool → MachineAction σ ExitCode
  | .ok true => pure .ok
  | .ok false => pure .compilationError
  | .error error =>
    if error.isReported then do
      Machine.printLine ("error: " ++ error.message)
      pure .internalError
    else throw (.during .runningService (.service error))

/-- Calls a compiler service. -/
def embedded (service : JavaService σ) (isModular : Bool) : JavaStrategy σ where
  name := "embedded"
  compile resolution sources := do
    let answer ← callService service (embeddedArguments isModular resolution sources)
    Machine.printDiagnostics answer.diagnostics.all
    exitCodeOf answer.outcome

/-- The way of compiling Java for a compile call; `service` replaces the host's compiler. -/
def select (env : Environment) (resolution : Resolution) (service : Option (JavaService σ)) :
    JavaStrategy σ :=
  match resolution.config.jdkHome with
  | some home => external home
  | none =>
    embedded (service.getD (HostJavac.locate env resolution.jdk.hostHome).service)
      resolution.jdk.hostIsModular

end JavaStrategy

end KotlinHarness
