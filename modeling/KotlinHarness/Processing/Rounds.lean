/-
  The sequence of rounds.

  The first round offers the inputs, each later one the files created in the round before.  A
  round in which nothing was created is followed by the final round.  A processor that fails ends
  everything.

  Whether rounds ever end is up to the processors, so `runRounds` takes the most rounds it may run.
-/
import KotlinHarness.Processing.Processor

namespace KotlinHarness

/-- How a sequence of rounds ended. -/
inductive RoundsEnding where
  /-- The final round was run. -/
  | over
  | failed (processor : String) (cause : Failure)
  /-- The files of a round could not be read. -/
  | unreadable (cause : Failure)
  /-- The rounds that may be run are used up. -/
  | exhausted

namespace Processing

variable {σ : Type}

/-- Calls processors in turn, up to the first that fails; its name and failure. -/
def callAll (round : Round) :
    List (Processor σ) → Processing σ → Option (String × Failure) × Processing σ
  | [], run => (none, run)
  | processor :: rest, run =>
    match processor.process round run with
    | .ok _ run => callAll round rest run
    | .error cause run => (some (processor.name, cause), run)

/-- The round after one in which `created` was created. -/
def nextRound (env : Environment) (created : List Path) : Except Failure Round :=
  if created.isEmpty then .ok .final else Round.ofFiles env created

/-- Runs `round` and those that follow, at most `limit` in all. -/
def runRounds (processors : List (Processor σ)) :
    Nat → Round → Processing σ → RoundsEnding × Processing σ
  | 0, _, run => (.exhausted, run)
  | limit + 1, round, run =>
    match callAll round processors run with
    | (some (name, cause), run) => (.failed name cause, run)
    | (none, run) =>
      if round.isOver then (.over, run)
      else
        match nextRound run.environment run.filer.pending with
        | .error cause => (.unreadable cause, run.settled)
        | .ok next => runRounds processors limit next run.settled

end Processing

end KotlinHarness
