/-
  Java compiler services: compilers called with a list of arguments that answer with diagnostics.

  The service of the host runs the `javac` of its JDK and reads its output.
-/
import KotlinHarness.JavaCompiler.Output
import KotlinHarness.Machine

namespace KotlinHarness

/-- What a call of a service gave: whether compilation succeeded, and the diagnostics reported. -/
structure ServiceAnswer where
  outcome : Except ServiceError Bool
  diagnostics : Collector

/-- A Java compiler; the arguments end with the sources. -/
structure JavaService (σ : Type) where
  name : String
  compile : List String → Machine σ → ServiceAnswer × Machine σ

/-- The compiler of the host, when it has one. -/
structure HostJavac where
  javac : Option Path
  deriving DecidableEq, Inhabited

namespace HostJavac

/-- The compiler of the JDK at a home, or else the one on the search path. -/
def locate (env : Environment) (jdkHome : Option Path) : HostJavac :=
  ⟨(jdkHome.map (· / "bin" / "javac")).filter env.isFile <|> env.which "javac"⟩

/-- The complaint about refused arguments: the first error reported, or else everything printed. -/
def complaint (output : String) (diagnostics : Collector) : String :=
  match diagnostics.errors with
  | first :: _ => first.message
  | [] => String.ofList (Text.trim output.toList)

/-- What the end of the compiler means. -/
def outcome (output : String) (diagnostics : Collector) : Ending → Except ServiceError Bool
  | .exited 0 => .ok true
  | .exited 1 => .ok false
  | .exited 2 => .error (.invalidArgument (complaint output diagnostics))
  | .exited code => .error (.breakdown ("exit status " ++ toString code))
  | .killed => .error (.breakdown "terminated by signal")

/-- One call of the compiler. -/
def compile (compiler : HostJavac) (env : Environment) (args : List String) : ServiceAnswer :=
  match compiler.javac with
  | none => ⟨.error .unavailable, .empty⟩
  | some javac =>
    match env.spawn { program := javac, arguments := args } with
    | .error cause => ⟨.error (.io cause), .empty⟩
    | .ok result =>
      let diagnostics := JavaCompiler.readOutput result.text
      ⟨outcome result.text diagnostics result.ending, diagnostics⟩

/-- The compiler as a service. -/
def service {σ : Type} (compiler : HostJavac) : JavaService σ where
  name := "host-javac"
  compile args machine := (compiler.compile machine.environment args, machine)

end HostJavac

end KotlinHarness
