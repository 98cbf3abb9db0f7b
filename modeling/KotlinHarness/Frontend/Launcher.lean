/-
  Kotlin compiler front ends, and the one that runs the `kotlinc` launcher.

  To compile, the launcher is run once.  For stubs it is run only when the annotation processing
  plugin is among the plugins; the processors run afterwards in any case, unless the launcher
  failed.
-/
import KotlinHarness.Processing.Plugins
import KotlinHarness.Toolchain.Tool

namespace KotlinHarness

/-- A Kotlin compiler.  It prints diagnostics to the message stream and fails only when the harness
    does. -/
structure Frontend (σ : Type) where
  name : String
  exec : FrontendArguments → MachineAction σ ExitCode

/-- The launcher of a Kotlin distribution: the configured one, or the one on the search path. -/
structure Launcher where
  configured : Option Path
  deriving DecidableEq, Inhabited

namespace Launcher

variable {σ : Type}

/-- The launcher to run. -/
def path? (launcher : Launcher) (env : Environment) : Option Path :=
  launcher.configured <|> env.which "kotlinc"

/-- Whether a place of plugins is an archive of the annotation processing plugin. -/
def isKaptArchive (path : Path) : Bool :=
  match path.fileName? with
  | some name =>
    "kotlin-annotation-processing".toList.isPrefixOf name.toList
      && ".jar".toList.isSuffixOf name.toList
  | none => false

/-- Java options for a child: the inherited ones, then the system properties. -/
def javaOptions (env : Environment) (pairs : List (String × String)) : String :=
  let inherited := (env.vars.get? "JAVA_OPTS").getD ""
  (if inherited.isEmpty then "" else inherited ++ " ") ++ Properties.javaOptions pairs

/-- How the launcher at `path` is run. -/
def command (env : Environment) (path : Path) (args : FrontendArguments) : Command where
  program := path
  arguments := args.commandLine
  directory := some args.workingDir
  overrides :=
    if args.systemProperties.isEmpty then []
    else [("JAVA_OPTS", javaOptions env args.systemProperties)]

/-- Runs the launcher at `path`. -/
def run (path : Path) (args : FrontendArguments) : MachineAction σ ExitCode := do
  Machine.runTool ExitCode.ofKotlinc (command (← get).environment path args)

/-- Runs the launcher for stubs, when there is a plugin to write them. -/
def runForStubs (path : Path) (args : FrontendArguments) : MachineAction σ ExitCode := do
  if args.pluginClasspaths.any isKaptArchive then run path args
  else
    Machine.printLine
      ("warning: kapt compiler plugin not found on the host classpath, "
        ++ "Kotlin sources are processed without stubs")
    pure .ok

/-- One call of the front end. -/
def exec (launcher : Launcher) (args : FrontendArguments) : MachineAction σ ExitCode := do
  match launcher.path? (← get).environment with
  | none =>
    Machine.printLine "error: kotlinc not found; configure \x60kotlinc\x60 or put it on PATH"
    pure .internalError
  | some path =>
    match args.mode with
    | .compile => run path args
    | .stubs =>
      let code ← runForStubs path args
      if code.isOk then Plugin.runAll args else pure code

/-- The launcher as a front end. -/
def frontend (launcher : Launcher) : Frontend σ := ⟨"kotlinc", launcher.exec⟩

end Launcher

end KotlinHarness
