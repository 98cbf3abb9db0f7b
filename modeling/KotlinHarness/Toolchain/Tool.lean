/-
  Tools run as child processes, their output forwarded to the message stream.

  Both output streams of the child arrive as one.  When its output cannot be delivered the child is
  given up, which is told on the stream like a failure to start it.
-/
import KotlinHarness.Machine
import KotlinHarness.Toolchain.ExitCode

namespace KotlinHarness.Machine

variable {σ : Type}

/-- Runs a command, forwarding everything it prints. -/
def runMerged (machine : Machine σ) (command : Command) : Except IoError Ending × Machine σ :=
  match machine.environment.spawn command with
  | .error cause => (.error cause, machine)
  | .ok outcome =>
    match machine.messages.writeAll outcome.merged machine.client with
    | (.ok (), messages, client) => (.ok outcome.ending, { machine with messages, client })
    | (.error cause, messages, client) => (.error cause, { machine with messages, client })

/-- Runs a tool; `meaning` reads its status.  A tool that does not end by itself, or cannot be
    run, is an internal error. -/
def runTool (meaning : Int → ExitCode) (command : Command) : MachineAction σ ExitCode :=
  fun machine =>
    match machine.runMerged command with
    | (.ok (.exited code), machine) => .ok (meaning code) machine
    | (.ok .killed, machine) => .ok .internalError machine
    | (.error cause, machine) =>
      (do
        printLine ("error: failed to run " ++ command.program.text ++ ": " ++ cause.message)
        pure .internalError : MachineAction σ ExitCode) machine

end KotlinHarness.Machine
