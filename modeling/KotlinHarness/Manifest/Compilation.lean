/-
  The configuration of a compile call.
-/
import KotlinHarness.Options
import KotlinHarness.Source.Unit

namespace KotlinHarness

/-- The annotation processing option that names the directory of generated Kotlin sources. -/
def generatedKotlinOption : String := "kapt.kotlin.generated"

/-- Options of one compile call; absent values are resolved against the host when the call starts.
    -/
structure Compilation where
  /-- Sources to stage. -/
  sources : List SourceUnit := []
  /-- The workspace; a temporary directory is made and kept without one. -/
  workingDir : Option Path := none
  /-- Class path entries of the user, first on every class path. -/
  classpaths : List Path := []
  /-- Whether the host's class path is appended. -/
  inheritClasspath : Bool := false
  /-- Options for annotation processors. -/
  kaptArgs : Options := []
  /-- Whether unresolvable types in stubs become error types. -/
  correctErrorTypes : Bool := false
  kotlincArguments : List String := []
  javacArguments : List String := []
  /-- The JDK that compiles Java; without one the host's compiler service does. -/
  jdkHome : Option Path := none
  /-- The `kotlinc` launcher; looked up on the search path without one. -/
  kotlinc : Option Path := none
  noStdlib : Bool := false
  noReflect : Bool := false
  /-- Version of the bytecode to generate. -/
  jvmTarget : Option String := none
  moduleName : Option String := none
  verbose : Bool := true
  allWarningsAsErrors : Bool := false
  suppressWarnings : Bool := false
  deriving Inhabited

namespace Compilation

/-- The user's directory of generated Kotlin sources. -/
def generatedKotlinDir? (config : Compilation) : Option Path :=
  (config.kaptArgs.get? generatedKotlinOption).map Path.mk

/-- Every path in the configuration passed through `f`. -/
def mapPaths (f : Path → Path) (config : Compilation) : Compilation :=
  { config with
    workingDir := config.workingDir.map f
    jdkHome := config.jdkHome.map f
    kotlinc := config.kotlinc.map f
    classpaths := config.classpaths.map f }

end Compilation

end KotlinHarness
