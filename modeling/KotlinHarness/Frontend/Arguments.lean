/-
  Arguments of a Kotlin compiler front end, and their command line.

  Options of compiler plugins are texts `plugin:<id>:<key>=<value>`; `pluginOption` looks them up
  again.
-/
import KotlinHarness.Processing.Processor

namespace KotlinHarness

/-- What a front end is asked for. -/
inductive FrontendMode where
  /-- Compile sources to class files. -/
  | compile
  /-- Write Java stubs of the Kotlin sources, then run the compiler plugins. -/
  | stubs
  deriving DecidableEq, Inhabited

/-- The arguments of one call of a front end. -/
structure FrontendArguments where
  mode : FrontendMode := .compile
  /-- The Kotlin sources to compile. -/
  sources : List Path := []
  /-- Java sources that the Kotlin sources may refer to. -/
  javaSources : List Path := []
  classpath : List Path := []
  destination : Path := ⟨""⟩
  /-- Archives and directories that hold compiler plugins. -/
  pluginClasspaths : List Path := []
  pluginOptions : List String := []
  jdkHome : Option Path := none
  noJdk : Bool := false
  noStdlib : Bool := false
  noReflect : Bool := false
  jvmTarget : Option String := none
  moduleName : Option String := none
  verbose : Bool := false
  allWarningsAsErrors : Bool := false
  suppressWarnings : Bool := false
  /-- Arguments of the user, passed on as they are. -/
  freeArguments : List String := []
  /-- Where child processes run. -/
  workingDir : Path := ⟨""⟩
  /-- System properties for the compiler. -/
  systemProperties : List (String × String) := []
  deriving DecidableEq, Inhabited

/-- The plugin that does annotation processing. -/
def kaptPluginId : String := "org.jetbrains.kotlin.kapt3"

/-- What the option `key` of a plugin starts with. -/
def pluginOptionHead (plugin key : String) : String := "plugin:" ++ plugin ++ ":" ++ key ++ "="

/-- An option of the annotation processing plugin. -/
def kaptOption (key value : String) : String := pluginOptionHead kaptPluginId key ++ value

/-- The text of a truth value in options. -/
def flagText (flag : Bool) : String := if flag then "true" else "false"

namespace Registration

/-- The registration as options of the annotation processing plugin. -/
def pluginOptions {σ : Type} (registration : Registration σ) (verbose : Bool) : List String :=
  let directories := registration.directories
  [kaptOption "sources" directories.generatedJava.text,
    kaptOption "classes" directories.classes.text,
    kaptOption "stubs" directories.stubs.text,
    kaptOption "incrementalData" directories.incrementalData.text,
    kaptOption "aptMode" "stubs",
    kaptOption "correctErrorTypes" (flagText registration.correctErrorTypes),
    kaptOption "verbose" (flagText verbose)]
    ++ registration.options.map fun (key, value) => kaptOption "apOption" (key ++ "=" ++ value)

end Registration

namespace FrontendArguments

/-- The values of the option `key` of a plugin, in order. -/
def pluginOption (args : FrontendArguments) (plugin key : String) : List String :=
  args.pluginOptions.filterMap fun option =>
    ((pluginOptionHead plugin key).toList.isPrefixOf? option.toList).map String.ofList

/-- A flag with its value. -/
def flagged (flag : String) (value : Option String) : List String :=
  match value with
  | some value => [flag, value]
  | none => []

/-- A flag that is given or not. -/
def switch (on : Bool) (flag : String) : List String := if on then [flag] else []

/-- Archives among the places of plugins; directories are resources of the harness itself. -/
def pluginArchives (args : FrontendArguments) : List Path :=
  args.pluginClasspaths.filter fun path => path.extension? = some "jar"

/-- The arguments as a command line, without the launcher. -/
def commandLine (args : FrontendArguments) : List String :=
  ["-d", args.destination.text]
    ++ (if args.classpath.isEmpty then [] else ["-classpath", Path.joinList args.classpath])
    ++ flagged "-jdk-home" (args.jdkHome.map Path.text)
    ++ flagged "-jvm-target" args.jvmTarget
    ++ flagged "-module-name" args.moduleName
    ++ switch (args.jdkHome.isNone && args.noJdk) "-no-jdk"
    ++ switch args.noStdlib "-no-stdlib"
    ++ switch args.noReflect "-no-reflect"
    ++ switch args.verbose "-verbose"
    ++ switch args.allWarningsAsErrors "-Werror"
    ++ switch args.suppressWarnings "-nowarn"
    ++ args.pluginArchives.map (fun jar => "-Xplugin=" ++ jar.text)
    ++ args.pluginOptions.flatMap (fun option => ["-P", option])
    ++ args.freeArguments
    ++ args.sources.map Path.text
    ++ args.javaSources.map Path.text

end FrontendArguments

end KotlinHarness
