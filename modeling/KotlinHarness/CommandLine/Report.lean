/-
  What the commands tell: reports, and their two printed forms.
-/
import KotlinHarness.CommandLine.Json
import KotlinHarness.Harness

namespace KotlinHarness

/-! ## Lines -/

/-- A value under a name. -/
def entryLine (key value : String) : String := key ++ ": " ++ value ++ "\n"

/-- The heading of a section. -/
def sectionLine (name : String) : String := name ++ ":\n"

/-- An item of a section. -/
def itemLine (text : String) : String := "  - " ++ text ++ "\n"

/-- A text filled up with blanks. -/
def padTo (width : Nat) (text : String) : String :=
  text ++ String.ofList (List.replicate (width - text.length) ' ')

/-! ## Compile calls -/

/-- The outcome of a compile call. -/
structure CompileReport where
  exitCode : ExitCode
  outputDirectory : Path
  /-- The stages visited. -/
  stages : List StageRecord
  classFiles : List Path
  generatedSources : List Path

namespace StageOutcome

def text : StageOutcome → String
  | skipped => "skipped"
  | ran code => code.text

def json : StageOutcome → Json
  | skipped => .object [("status", .text "skipped")]
  | ran code => .object [("status", .text "ran"), ("exit_code", .text code.text)]

end StageOutcome

namespace CompileReport

/-- The report of a call's result and the stages it visited. -/
def ofResult (result : CompilationResult) (stages : List StageRecord) : CompileReport where
  exitCode := result.exitCode
  outputDirectory := result.outputDirectory
  stages := stages
  classFiles := result.generatedFiles
  generatedSources := result.processorSources

/-- The width of a stage's name. -/
def stageWidth : Nat := 7

def stageLine (record : StageRecord) : String :=
  itemLine (padTo stageWidth record.stage ++ record.outcome.text)

/-- The section of generated sources, when there are any. -/
def generatedLines (sources : List Path) : String :=
  if sources.isEmpty then ""
  else sectionLine "Generated sources" ++ String.join (sources.map (itemLine ·.text))

/-- The report for readers. -/
def text (report : CompileReport) : String :=
  sectionLine "Stages" ++ String.join (report.stages.map stageLine)
    ++ generatedLines report.generatedSources
    ++ entryLine "Output" report.outputDirectory.text
    ++ entryLine "Class files" (toString report.classFiles.length)
    ++ entryLine "Result" report.exitCode.text

/-- The report for programs. -/
def json (report : CompileReport) : Json :=
  .object [
    ("exit_code", .text report.exitCode.text),
    ("output_directory", .text report.outputDirectory.text),
    ("stages", .array (report.stages.map fun record =>
      .object [("stage", .text record.stage), ("outcome", record.outcome.json)])),
    ("class_files", .ofTexts (report.classFiles.map Path.text)),
    ("generated_sources", .ofTexts (report.generatedSources.map Path.text))]

end CompileReport

/-! ## The host -/

/-- What the host offers. -/
structure ProbeReport where
  jdkHome : Option Path
  jdkVersion : Option String
  /-- Whether the JDK has the module system. -/
  modular : Bool
  toolsJar : Option Path
  /-- Whether annotation processing needs a compiler archive that is not on the class path. -/
  toolsJarRequired : Bool
  /-- The runtime libraries by name. -/
  runtimeJars : List (String × Option Path)
  hostClasspath : List Path

namespace ProbeReport

/-- The report on a host, with the JDK at `jdkHome` in place of its own when given. -/
def ofHost (host : Host) (env : Environment) (jdkHome : Option Path) : ProbeReport :=
  let hostClasspath := host.absoluteClasspath env
  let jdk := Jdk.probe host env jdkHome
  let runtime := RuntimeJars.discover hostClasspath
  { jdkHome := jdk.effectiveHome
    jdkVersion := jdk.version.map JavaVersion.text
    modular := !jdk.isPreModular
    toolsJar := toolsJar? env jdk.effectiveHome hostClasspath
    toolsJarRequired := jdk.isPreModular && !hasToolsJar hostClasspath
    runtimeJars := [
      ("kotlin-stdlib", runtime.stdlib),
      ("kotlin-stdlib-common", runtime.stdlibCommon),
      ("kotlin-reflect", runtime.reflect),
      ("kotlin-script-runtime", runtime.scriptRuntime),
      ("kapt plugin", runtime.kaptPlugin)]
    hostClasspath := hostClasspath }

/-- A path, or what stands for a missing one. -/
def pathOr (missing : String) (path : Option Path) : String := (path.map Path.text).getD missing

/-- The report for readers. -/
def text (report : ProbeReport) : String :=
  let noToolsJar := if report.toolsJarRequired then "missing (required)" else "not required"
  entryLine "JDK" (pathOr "not found" report.jdkHome)
    ++ entryLine "Version" (report.jdkVersion.getD "unknown")
    ++ entryLine "Modular" (if report.modular then "yes" else "no")
    ++ entryLine "tools.jar" (pathOr noToolsJar report.toolsJar)
    ++ sectionLine "Runtime jars"
    ++ String.join (report.runtimeJars.map fun (name, path) =>
      itemLine (name ++ ": " ++ pathOr "not found" path))
    ++ entryLine "Host classpath" (toString report.hostClasspath.length ++ " entries")

/-- The report for programs. -/
def json (report : ProbeReport) : Json :=
  .object [
    ("jdk_home", .ofText? (report.jdkHome.map Path.text)),
    ("jdk_version", .ofText? report.jdkVersion),
    ("modular", .boolean report.modular),
    ("tools_jar", .ofText? (report.toolsJar.map Path.text)),
    ("tools_jar_required", .boolean report.toolsJarRequired),
    ("runtime_jars", .array (report.runtimeJars.map fun (name, path) =>
      .object [("name", .text name), ("path", .ofText? (path.map Path.text))])),
    ("host_classpath", .ofTexts (report.hostClasspath.map Path.text))]

end ProbeReport

end KotlinHarness
