/-
  Executable programs, known by what they print and how they end.
-/
import KotlinHarness.Text.Utf8

namespace KotlinHarness

/-- Environment variables, the first entry of a name counting. -/
abbrev Variables := List (String × String)

namespace Variables

def get? (vars : Variables) (name : String) : Option String :=
  (vars.find? (·.1 == name)).map (·.2)

/-- `vars` with `name` set to `value`. -/
def put (vars : Variables) (name value : String) : Variables := (name, value) :: vars

end Variables

/-- How a program is started. -/
structure Invocation where
  arguments : List String
  /-- The absolute directory the program runs in. -/
  workingDirectory : String
  vars : Variables

/-- How a program ended. -/
inductive Ending where
  | exited (code : Nat)
  /-- Ended by a signal, without a code. -/
  | killed
  deriving DecidableEq, Inhabited

/-- What a program printed on its two streams, and how it ended. -/
structure Outcome where
  output : Bytes
  errors : Bytes
  ending : Ending

namespace Outcome

/-- Everything printed, standard output first. -/
def merged (outcome : Outcome) : Bytes := outcome.output ++ outcome.errors

/-- The text of both streams, each decoded by itself. -/
def text (outcome : Outcome) : String :=
  Text.decodeLossy outcome.output ++ Text.decodeLossy outcome.errors

end Outcome

/-- A program answers each invocation with what it prints. -/
structure Program where
  run : Invocation → Outcome

end KotlinHarness
