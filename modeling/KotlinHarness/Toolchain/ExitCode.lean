/-
  How a stage, and a whole compile call, ends.
-/

namespace KotlinHarness

/-- The outcome of a stage or of a compile call.  `ok` is the only success. -/
inductive ExitCode where
  | ok
  | internalError
  | compilationError
  | scriptExecutionError
  deriving DecidableEq, Inhabited

namespace ExitCode

def isOk (code : ExitCode) : Bool := code == ok

/-- The name of an outcome in reports. -/
def text : ExitCode → String
  | ok => "OK"
  | internalError => "INTERNAL_ERROR"
  | compilationError => "COMPILATION_ERROR"
  | scriptExecutionError => "SCRIPT_EXECUTION_ERROR"

/-- The outcome that a `kotlinc` status stands for. -/
def ofKotlinc (status : Int) : ExitCode :=
  if status = 0 then ok
  else if status = 1 then compilationError
  else if status = 3 then scriptExecutionError
  else internalError

/-- The outcome that a `javac` status stands for. -/
def ofJavac (status : Int) : ExitCode :=
  if status = 0 then ok
  else if status = 1 then compilationError
  else internalError

end ExitCode

end KotlinHarness
