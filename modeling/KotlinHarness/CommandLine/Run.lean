/-
  Running a command line.

  Compiler messages and complaints go to the error stream, reports to the output.  The exit status
  is 0 for success, 1 for a compilation that failed or could not start, 2 for arguments that
  cannot be read.
-/
import KotlinHarness.CommandLine.Arguments
import KotlinHarness.CommandLine.Report
import KotlinHarness.Manifest.Manifest

namespace KotlinHarness.CommandLine

/-- How a command line ended. -/
structure Ended where
  status : Nat
  output : String
  errors : String
  environment : Environment

/-- The version of this program. -/
def programVersion : String := "kompile 0.3.0\n"

/-- A short reminder of the commands. -/
def usage : String :=
  "Usage: kompile [-v] <COMMAND>\n\n"
    ++ "  compile      Compile the sources described by kompile.toml\n"
    ++ "  probe        Show the host toolchain a compilation would use\n"
    ++ "  completions  Generate shell completions\n"

/-- The most rounds of annotation processing. -/
def roundLimit : Nat := 10000

/-- A report in the form asked for. -/
def printed (json : Bool) (value : Json) (text : String) : String :=
  if json then value.render ++ "\n" else text

/-- The configuration of a manifest file, in the workspace asked for. -/
def configuration (env : Environment) (config : Path) (workingDir : Option Path) :
    Except ConfigError Compilation := do
  let file ← ManifestFile.load env config
  let compilation ← file.compilation env
  pure { compilation with workingDir := workingDir <|> compilation.workingDir }

/-- The end of a compile call. -/
def endCompile (json : Bool) (result : CompilationResult) (harness : Harness Bytes)
    (machine : Machine Bytes) : Ended :=
  let report := CompileReport.ofResult result harness.lastStages
  { status := if report.exitCode.isOk then 0 else 1
    output := printed json report.json report.text
    errors := Text.decodeLossy machine.client
    environment := machine.environment }

/-- Compiles what a manifest describes. -/
def compile (env : Environment) (config : Path) (workingDir : Option Path) (json : Bool) : Ended :=
  match configuration env config workingDir with
  | .error cause => ⟨1, "", "error: " ++ cause.message ++ "\n", env⟩
  | .ok compilation =>
    let harness : Harness Bytes := .ofConfig compilation .collecting
    match harness.compile (.start env roundLimit []) with
    | (.ok result, harness, machine) => endCompile json result harness machine
    | (.error cause, _, machine) =>
      let told := Text.decodeLossy machine.client
      ⟨1, "", told ++ "error: " ++ cause.line ++ "\n", machine.environment⟩

/-- Tells what the host offers. -/
def probe (env : Environment) (jdkHome : Option Path) (json : Bool) : Ended :=
  let report := ProbeReport.ofHost .system env jdkHome
  ⟨0, printed json report.json report.text, "", env⟩

/-- Does what is asked for.  Completion scripts are left to the shells. -/
def answer (env : Environment) : Request → Ended
  | .compile config workingDir json => compile env config workingDir json
  | .probe jdkHome json => probe env jdkHome json
  | .completions _ => ⟨0, "", "", env⟩
  | .help => ⟨0, usage, "", env⟩
  | .version => ⟨0, programVersion, "", env⟩
  | .refused => ⟨2, "", usage, env⟩

/-- Runs a command line. -/
def run (env : Environment) (args : List String) : Ended := answer env (read args)

end KotlinHarness.CommandLine
