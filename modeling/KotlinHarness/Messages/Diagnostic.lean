/-
  Diagnostics of compilers and annotation processors.
-/
import KotlinHarness.Path

namespace KotlinHarness

/-- How serious a diagnostic is. -/
inductive Severity where
  | error
  | warning
  | note
  deriving DecidableEq, Inhabited

namespace Severity

/-- The word printed in front of a message. -/
def text : Severity → String
  | error => "error"
  | warning => "warning"
  | note => "note"

/-- The name in structured reports. -/
def title : Severity → String
  | error => "Error"
  | warning => "Warning"
  | note => "Note"

def isError (severity : Severity) : Bool := severity == error

end Severity

/-- A message, perhaps with the source and line it is about. -/
structure Diagnostic where
  severity : Severity
  source : Option Path
  line : Option Nat
  message : String
  deriving DecidableEq, Inhabited

namespace Diagnostic

/-- A diagnostic about nothing in particular. -/
def plain (severity : Severity) (message : String) : Diagnostic := ⟨severity, none, none, message⟩

/-- The diagnostic placed at a line of a source. -/
def placedAt (diagnostic : Diagnostic) (source : Path) (line : Nat) : Diagnostic :=
  { diagnostic with source := some source, line := some line }

/-- The printed form, without a line break after it. -/
def text (diagnostic : Diagnostic) : String :=
  let place :=
    match diagnostic.source, diagnostic.line with
    | some source, some line => source.text ++ ":" ++ toString line ++ ": "
    | some source, none => source.text ++ ": "
    | none, _ => ""
  place ++ diagnostic.severity.text ++ ": " ++ diagnostic.message

end Diagnostic

/-- The diagnostics of one tool run, in the order reported. -/
structure Collector where
  all : List Diagnostic
  deriving DecidableEq, Inhabited

namespace Collector

def empty : Collector := ⟨[]⟩

def report (collector : Collector) (diagnostic : Diagnostic) : Collector :=
  ⟨collector.all ++ [diagnostic]⟩

/-- A further line of the last diagnostic's message; without diagnostics the line is dropped. -/
def continueLast (collector : Collector) (line : String) : Collector × Bool :=
  match collector.all.getLast? with
  | some last =>
    (⟨collector.all.dropLast ++ [{ last with message := last.message ++ "\n" ++ line }]⟩, true)
  | none => (collector, false)

def errors (collector : Collector) : List Diagnostic :=
  collector.all.filter (·.severity.isError)

def hasErrors (collector : Collector) : Bool := collector.all.any (·.severity.isError)

/-- All diagnostics as printed, each on a line of its own. -/
def text (collector : Collector) : String :=
  String.join (collector.all.map fun diagnostic => diagnostic.text ++ "\n")

end Collector

end KotlinHarness
