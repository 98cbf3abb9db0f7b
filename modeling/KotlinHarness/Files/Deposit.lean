/-
  Depositing text files: directories are created as needed, and a file that already holds the text
  may be left alone.
-/
import KotlinHarness.Failure
import KotlinHarness.Files.Environment

namespace KotlinHarness

/-- What to do with a file that exists. -/
inductive Overwrite where
  | always
  /-- Only when the content differs; a file that cannot be read as text counts as different. -/
  | ifChanged
  deriving DecidableEq, Inhabited

/-- What a deposit did. -/
inductive Deposit where
  | written
  /-- The file held the text already. -/
  | unchanged
  deriving DecidableEq, Inhabited

namespace Deposit

def name : Deposit → String
  | written => "written"
  | unchanged => "unchanged"

end Deposit

/-- An operation on the environment that fails with a chain of causes. -/
abbrev EnvironmentAction (α : Type) := EStateM Failure Environment α

/-- A file operation whose failure is told together with what was being done. -/
def FileAction.during {α : Type} (undertaking : Undertaking) (action : FileAction α) :
    EnvironmentAction α := fun env =>
  match action env with
  | .ok value env => .ok value env
  | .error cause env => .error (.during undertaking (.io cause)) env

/-- An action whose failure is told together with what was being done. -/
def EnvironmentAction.during {α : Type} (undertaking : Undertaking) (action : EnvironmentAction α) :
    EnvironmentAction α := fun env =>
  match action env with
  | .ok value env => .ok value env
  | .error cause env => .error (.during undertaking cause) env

namespace Environment

/-- Creates a directory and what is missing above it. -/
def ensureDirectory (path : Path) : EnvironmentAction Unit :=
  (makeDirectories path).during (.creating path)

/-- Writes a text file into a directory that is created when it is missing. -/
def writeText (path : Path) (content : String) : EnvironmentAction Unit := do
  if let some parent := path.parent? then
    (makeDirectories parent).during (.creating parent)
  (write path (Text.encode content)).during (.writing path)

/-- Whether a file holds exactly the text. -/
def holds (env : Environment) (path : Path) (content : String) : Bool :=
  match env.readText path with
  | .ok existing => existing == content
  | .error _ => false

/-- Puts a text into a file. -/
def deposit (overwrite : Overwrite) (path : Path) (content : String) : EnvironmentAction Deposit :=
  fun env =>
    if overwrite = .ifChanged && env.holds path content then .ok .unchanged env
    else (do writeText path content; pure .written : EnvironmentAction Deposit) env

end Environment

end KotlinHarness
