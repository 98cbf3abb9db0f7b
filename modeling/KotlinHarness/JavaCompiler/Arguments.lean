/-
  Arguments of the Java compiler that do not depend on how it is run.
-/
import KotlinHarness.Resolution

namespace KotlinHarness.JavaCompiler

/-- What makes the compiler tell what it does; the modular one can also check modules. -/
def verbosity (isModular : Bool) : List String :=
  ["-verbose", "-Xlint:path", "-Xlint:options"] ++ if isModular then ["-Xlint:module"] else []

/-- The shared arguments in their order: verbosity, destination, no annotation processing (it was
    done before), warnings as errors, the user's arguments, class path with the compiled classes
    at its end. -/
def baseArguments (resolution : Resolution) (isModular : Bool) : List String :=
  (if resolution.config.verbose then verbosity isModular else [])
    ++ ["-d", resolution.classesDir.text, "-proc:none"]
    ++ (if resolution.config.allWarningsAsErrors then ["-Werror"] else [])
    ++ resolution.config.javacArguments
    ++ ["-cp", Path.joinList resolution.classpathWithOutput]

/-- The flags that take the classes of the compiler's own platform away. -/
def erasePlatform (isModular : Bool) : List String :=
  if isModular then ["--system", "none"] else ["-bootclasspath", ""]

end KotlinHarness.JavaCompiler
