/-
  The three stages of a compile call.

    * kapt     stubs and annotation processing, when processors are registered
    * kotlin   the Kotlin compiler, when there are Kotlin sources
    * java     the Java compiler, when there are Java sources
-/
import KotlinHarness.Frontend.Launcher
import KotlinHarness.JavaCompiler.Strategy
import KotlinHarness.Pipeline.Run

namespace KotlinHarness

namespace FrontendArguments

/-- The arguments that both front-end stages share. -/
def ofResolution (resolution : Resolution) (properties : Properties) : FrontendArguments :=
  let config := resolution.config
  { classpath := resolution.classpath
    jdkHome := config.jdkHome
    noJdk := config.jdkHome.isNone
    noStdlib := config.noStdlib
    noReflect := config.noReflect
    jvmTarget := config.jvmTarget
    moduleName := config.moduleName
    verbose := config.verbose
    allWarningsAsErrors := config.allWarningsAsErrors
    suppressWarnings := config.suppressWarnings
    freeArguments := config.kotlincArguments
    workingDir := resolution.workspace.root
    systemProperties := properties.snapshot }

end FrontendArguments

namespace Stage

variable {σ : Type}

/-! ## Annotation processing -/

/-- The empty Kotlin source for processing Java sources alone: the compiler wants at least one. -/
def placeholderPath (workspace : Workspace) : Path := workspace.placeholder / "EmptyPlaceholder.kt"

/-- Writes the empty Kotlin source. -/
def writePlaceholder (workspace : Workspace) : EnvironmentAction Path := do
  let _ ← Environment.deposit .ifChanged (placeholderPath workspace) "// no Kotlin sources\n"
  pure (placeholderPath workspace)

/-- The staged Kotlin sources, or the empty one when there are none. -/
def kaptSources (workspace : Workspace) (staged : List Path) : EnvironmentAction (List Path) := do
  if staged.isEmpty then pure [← writePlaceholder workspace] else pure staged

/-- Where the front end finds plugins: the compiler archive, the listing of the processing plugin,
    and the archive that writes stubs. -/
def pluginClasspaths (resolution : Resolution) : List Path :=
  resolution.toolsJar.toList ++ [resolution.workspace.registrar]
    ++ resolution.runtime.kaptPlugin.toList

/-- The arguments of the front end for stubs and processing. -/
def kaptArguments (registration : Registration σ) (context : Context σ) (sources : List Path) :
    FrontendArguments :=
  let resolution := context.resolution
  { FrontendArguments.ofResolution resolution context.machine.properties with
    mode := .stubs
    sources := sources
    javaSources := StagedSource.ofLanguage .java context.staged
    destination := resolution.workspace.incrementalData
    pluginClasspaths := pluginClasspaths resolution
    pluginOptions := registration.pluginOptions resolution.config.verbose }

/-- Generates stubs and runs the processors of a registration. -/
def runKapt (frontend : Frontend σ) (registration : Registration σ) : ContextAction σ ExitCode := do
  let context ← get
  let workspace := context.resolution.workspace
  let staged := StagedSource.ofLanguage .kotlin context.staged
  let sources ← Context.onMachine (Machine.onEnvironment (kaptSources workspace staged))
  Context.onMachine (Machine.onEnvironment (Plugin.register workspace.registrar))
  let args := kaptArguments registration context sources
  Context.onMachine (Machine.withRegistration registration (frontend.exec args))

/-- The annotation processing stage; needed when processors are registered. -/
def kapt (frontend : Frontend σ) (registration : Option (Registration σ)) : Stage σ where
  name := "kapt"
  isNeeded _ := registration.any fun registration => !registration.processors.isEmpty
  usesFrontend := true
  run :=
    match registration with
    | some registration => runKapt frontend registration
    | none => pure .ok

/-! ## Compilation -/

/-- The arguments of the front end for compilation; Java sources are there to be referred to. -/
def kotlinArguments (context : Context σ) : FrontendArguments :=
  { FrontendArguments.ofResolution context.resolution context.machine.properties with
    mode := .compile
    sources := context.sourcesOf .kotlin
    javaSources := context.sourcesOf .java
    destination := context.resolution.classesDir }

/-- The Kotlin stage; needed when there are Kotlin sources. -/
def kotlin (frontend : Frontend σ) : Stage σ where
  name := "kotlin"
  isNeeded context := !(context.sourcesOf .kotlin).isEmpty
  usesFrontend := true
  run := do
    let context ← get
    Context.onMachine (frontend.exec (kotlinArguments context))

/-- The Java stage; needed when there are Java sources. -/
def java (strategy : JavaStrategy σ) : Stage σ where
  name := "java"
  isNeeded context := !(context.sourcesOf .java).isEmpty
  usesFrontend := false
  run := do
    let context ← get
    Context.onMachine (strategy.compile context.resolution (context.sourcesOf .java))

end Stage

namespace Pipeline

variable {σ : Type}

/-- Annotation processing, then Kotlin, then Java. -/
def standard (frontend : Frontend σ) (registration : Option (Registration σ))
    (strategy : JavaStrategy σ) (hooks : List (Hook σ)) : Pipeline σ where
  stages := [.kapt frontend registration, .kotlin frontend, .java strategy]
  hooks := hooks

end Pipeline

end KotlinHarness
