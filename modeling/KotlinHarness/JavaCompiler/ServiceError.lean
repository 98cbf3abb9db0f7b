/-
  Failures of a Java compiler service.
-/
import KotlinHarness.Files.IoError

namespace KotlinHarness

/-- Why a call of a Java compiler service ended without an answer. -/
inductive ServiceError where
  /-- The service refused an argument. -/
  | invalidArgument (text : String)
  /-- The compiler broke down while it ran. -/
  | breakdown (text : String)
  /-- The host has no Java compiler. -/
  | unavailable
  | io (cause : IoError)
  deriving DecidableEq, Inhabited

namespace ServiceError

def message : ServiceError → String
  | invalidArgument text => "invalid javac argument: " ++ text
  | breakdown text => "javac failed: " ++ text
  | unavailable => "no Java compiler is available on the host"
  | io cause => cause.message

/-- Failures of the compiler itself, which end the Java stage with a message; the others abort the
    compile call. -/
def isReported : ServiceError → Bool
  | invalidArgument _ | breakdown _ => true
  | unavailable | io _ => false

end ServiceError

end KotlinHarness
