/-
  The machine on which compile calls run.

  It holds everything that outlives a single function of the harness: files and variables, system
  properties, the registrations handed to compiler plugins, the message stream, and the client's own
  state `σ`, on which its sink, processors and hooks work.

  Calls of the rehearsed tools are kept as a log; the tools of a real host leave none.
-/
import KotlinHarness.Frontend.Arguments
import KotlinHarness.Messages.Stream
import KotlinHarness.Scope.Handoff
import KotlinHarness.Scope.Properties

namespace KotlinHarness

/-- A call of a rehearsed tool. -/
inductive ToolCall where
  | frontend (args : FrontendArguments)
  | service (args : List String)
  deriving DecidableEq, Inhabited

namespace ToolCall

/-- The arguments of a call of the front end. -/
def frontendArgs? : ToolCall → Option FrontendArguments
  | frontend args => some args
  | service _ => none

/-- The arguments of a call of the Java compiler service. -/
def serviceArgs? : ToolCall → Option (List String)
  | service args => some args
  | frontend _ => none

end ToolCall

/-- The state of a running harness whose client keeps a state of type `σ`. -/
structure Machine (σ : Type) where
  environment : Environment
  properties : Properties
  /-- The number of the next scope. -/
  nextScope : ScopeId
  /-- The thread the harness runs on. -/
  thread : ThreadId
  /-- The registrations that compiler plugins find. -/
  registrations : HandoffSlot (Registration σ)
  messages : MessageStream σ
  /-- Calls of rehearsed tools, oldest first. -/
  calls : List ToolCall
  /-- The most rounds that annotation processing may take. -/
  roundLimit : Nat
  client : σ

/-- An operation on the machine. -/
abbrev MachineAction (σ α : Type) := EStateM Failure (Machine σ) α

namespace Machine

variable {σ : Type}

/-- A machine on which nothing was done yet; messages are discarded. -/
def start (environment : Environment) (roundLimit : Nat) (client : σ) : Machine σ where
  environment := environment
  properties := .empty
  nextScope := 0
  thread := 0
  registrations := .empty
  messages := .ofSink .discarding
  calls := []
  roundLimit := roundLimit
  client := client

/-- Does something to the environment. -/
def onEnvironment {α : Type} (action : EnvironmentAction α) : MachineAction σ α := fun machine =>
  match action machine.environment with
  | .ok value environment => .ok value { machine with environment }
  | .error cause environment => .error cause { machine with environment }

/-! ## Messages -/

/-- Writes octets to the message stream. -/
def printBytes (bytes : Bytes) : MachineAction σ Unit := fun machine =>
  match machine.messages.writeAll bytes machine.client with
  | (.ok (), messages, client) => .ok () { machine with messages, client }
  | (.error cause, messages, client) => .error (.io cause) { machine with messages, client }

/-- Prints a line. -/
def printLine (line : String) : MachineAction σ Unit := printBytes (Text.encode (line ++ "\n"))

/-- Prints diagnostics, each on lines of its own. -/
def printDiagnostics : List Diagnostic → MachineAction σ Unit
  | [] => pure ()
  | diagnostic :: rest => do
    printLine diagnostic.text
    printDiagnostics rest

/-! ## Scopes -/

/-- Sets a property for a new scope. -/
def openScope (machine : Machine σ) (key value : String) : ScopeId × Machine σ :=
  (machine.nextScope,
    { machine with
      properties := machine.properties.set machine.nextScope key value
      nextScope := machine.nextScope + 1 })

/-- Ends a scope of a property. -/
def closeScope (machine : Machine σ) (scope : ScopeId) (key : String) : Machine σ :=
  { machine with properties := machine.properties.release scope key }

/-- The registration installed on the machine's thread. -/
def registration? (machine : Machine σ) : Option (Registration σ) :=
  machine.registrations.get? machine.thread

/-- The machine without the registration of its thread. -/
def clearRegistration (machine : Machine σ) : Machine σ :=
  { machine with registrations := machine.registrations.clear machine.thread }

/-- Does something while a registration is installed on the thread; afterwards the thread has
    none. -/
def withRegistration {α : Type} (registration : Registration σ) (action : MachineAction σ α) :
    MachineAction σ α := fun machine =>
  match action { machine with
      registrations := machine.registrations.install machine.thread registration } with
  | .ok value machine => .ok value machine.clearRegistration
  | .error cause machine => .error cause machine.clearRegistration

/-- Notes a call of a rehearsed tool. -/
def noteCall (call : ToolCall) : MachineAction σ Unit :=
  modify fun machine => { machine with calls := machine.calls ++ [call] }

end Machine

end KotlinHarness
