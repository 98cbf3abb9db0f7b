/-
  What printing, files, tools and processors leave of a machine.

  They work on the files, on the message stream and on the client's state.  A relation of machines that
  looks at none of the three is `Indifferent`, and all of them keep it, whatever processors do.
-/
import KotlinHarness.Processing.Plugins
import KotlinHarness.Proofs.Action
import KotlinHarness.Toolchain.Tool

namespace KotlinHarness

open Machine

variable {σ α : Type} {R : Machine σ → Machine σ → Prop}

/-- A relation that composes, and that does not look at files, messages and the client's state. -/
structure Machine.Indifferent (R : Machine σ → Machine σ → Prop) : Prop extends Composes R where
  changes : ∀ machine environment messages client,
    R machine { machine with environment, messages, client }

/-- A tool prints what it says, and one line if it could not be run. -/
theorem Composes.keeps_runTool (composes : Composes R)
    (merged : ∀ (machine : Machine σ) command, R machine (machine.runMerged command).2)
    (prints : ∀ line, Keeps R (printLine line)) (meaning : Int → ExitCode) (command : Command) :
    Keeps R (runTool meaning command) := by
  intro machine
  have hmerged := merged machine command
  rw [runTool]
  split
  · next heq =>
    rw [heq] at hmerged
    exact hmerged
  · next heq =>
    rw [heq] at hmerged
    exact hmerged
  · next after heq =>
    rw [heq] at hmerged
    refine composes.trans hmerged ?_
    exact composes.keeps_bind (prints _) (fun _ => composes.keeps_pure _) after

namespace Machine.Indifferent

theorem keeps_onEnvironment (indifferent : Indifferent R) (action : EnvironmentAction α) :
    Keeps R (onEnvironment action) := by
  intro machine
  rw [onEnvironment]
  cases action machine.environment <;> exact indifferent.changes machine _ _ _

theorem keeps_printLine (indifferent : Indifferent R) (line : String) : Keeps R (printLine line) := by
  intro machine
  rw [printLine, printBytes]
  split <;> exact indifferent.changes machine _ _ _

theorem keeps_printDiagnostics (indifferent : Indifferent R) (diagnostics : List Diagnostic) :
    Keeps R (printDiagnostics diagnostics) := by
  induction diagnostics with
  | nil => exact indifferent.keeps_pure ()
  | cons diagnostic rest ih =>
    exact indifferent.keeps_bind (indifferent.keeps_printLine _) fun _ => ih

theorem keeps_runTool (indifferent : Indifferent R) (meaning : Int → ExitCode) (command : Command) :
    Keeps R (runTool meaning command) := by
  refine indifferent.toComposes.keeps_runTool (fun machine command => ?_) indifferent.keeps_printLine
    meaning command
  rw [runMerged]
  split
  · exact indifferent.refl machine
  · split <;> exact indifferent.changes machine _ _ _

/-! ## Annotation processing -/

theorem keeps_conclude (indifferent : Indifferent R) (ending : RoundsEnding)
    (diagnostics : Collector) : Keeps R (Processing.conclude ending diagnostics) := by
  have hprint := indifferent.keeps_printDiagnostics diagnostics.all
  match ending with
  | .over => exact indifferent.keeps_bind hprint fun _ => indifferent.keeps_pure _
  | .failed processor cause =>
    exact indifferent.keeps_bind hprint fun _ =>
      indifferent.keeps_bind (indifferent.keeps_printLine _) fun _ => indifferent.keeps_pure _
  | .unreadable cause => exact indifferent.refl
  | .exhausted => exact indifferent.refl

/-- Processors get at files and the client's state alone. -/
theorem keeps_process (indifferent : Indifferent R) (registration : Registration σ)
    (inputs : List Path) : Keeps R (Processing.process registration inputs) := by
  intro machine
  rw [Processing.process]
  rcases Round.ofFiles machine.environment inputs with cause | first
  · exact indifferent.refl machine
  · simp only
    rcases Processing.runRounds registration.processors machine.roundLimit first
      (Processing.start registration machine.environment machine.client) with ⟨ending, last⟩
    exact indifferent.trans
      (indifferent.changes machine last.environment machine.messages last.client)
      (indifferent.keeps_conclude ending last.diagnostics _)

theorem keeps_run (indifferent : Indifferent R) (args : FrontendArguments) (plugin : Plugin) :
    Keeps R (plugin.run args) := by
  refine indifferent.keeps_bind indifferent.refl fun machine => ?_
  split
  · exact indifferent.keeps_process _ _
  · exact indifferent.keeps_bind (indifferent.keeps_printLine _) fun _ => indifferent.keeps_pure _

theorem keeps_runAll (indifferent : Indifferent R) (args : FrontendArguments) :
    Keeps R (Plugin.runAll args) := by
  have hplugins : ∀ plugins, Keeps R (Plugin.runInTurn args plugins) := by
    intro plugins
    induction plugins with
    | nil => exact indifferent.keeps_pure _
    | cons plugin rest ih =>
      refine indifferent.keeps_bind (indifferent.keeps_run args plugin) fun code => ?_
      split
      · exact ih
      · exact indifferent.keeps_pure _
  refine indifferent.keeps_bind indifferent.refl fun machine => ?_
  rcases Plugin.discover machine.environment args.pluginClasspaths with cause | plugins
  · exact indifferent.refl
  · exact hplugins plugins

end Machine.Indifferent

end KotlinHarness
