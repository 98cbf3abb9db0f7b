/-
  What a call of the compiler plugins creates.

  A plugin runs the processors of the registration on its thread.  Which files they created is known
  to the filer of that run and forgotten when the run is over; `createdBy` follows a run to its end
  and keeps them, and `createdInTurn` does the same for plugins that are called in turn.

  What processors do to files is told by the files they created (`Gains`), however the run ends:
  step by step (`Step.gains`), over all rounds (`Rounds.keeps`), and for all plugins of a call
  (`runAll_gains`).
-/
import KotlinHarness.Proofs.Processing.Generated
import KotlinHarness.Proofs.Processing.Protocol

namespace KotlinHarness

namespace Machine

variable {σ : Type}

/-- Nothing but messages: files, registrations and the limit of rounds stay as they are. -/
structure OnlyPrints (before after : Machine σ) : Prop where
  environment : after.environment = before.environment
  registration : after.registration? = before.registration?
  roundLimit : after.roundLimit = before.roundLimit

theorem onlyPrints_composes : Composes (@OnlyPrints σ) := by
  constructor
  · intro machine
    exact ⟨rfl, rfl, rfl⟩
  · intro first second third h h'
    exact ⟨h'.environment.trans h.environment, h'.registration.trans h.registration,
      h'.roundLimit.trans h.roundLimit⟩

theorem keeps_printLine (line : String) : Keeps (@OnlyPrints σ) (printLine line) := by
  intro machine
  rw [printLine, printBytes]
  split <;> exact ⟨rfl, rfl, rfl⟩

theorem keeps_printDiagnostics (diagnostics : List Diagnostic) :
    Keeps (@OnlyPrints σ) (printDiagnostics diagnostics) := by
  induction diagnostics with
  | nil => exact onlyPrints_composes.keeps_pure ()
  | cons diagnostic rest ih =>
    exact onlyPrints_composes.keeps_bind (keeps_printLine _) fun _ => ih

end Machine

namespace Processing

open Machine

variable {σ : Type}

/-! ## Steps -/

/-- What a processor does on the side may be anything but writing sources or removing files. -/
structure WritesNoSources (before after : Processing σ) : Prop where
  filer : after.filer = before.filer
  grows : Environment.Grows (fun location _ => ¬ Environment.IsSource location) before.environment
    after.environment

/-- Between two states of a run sources were created, and other sources stayed what they were. -/
structure GainsCreated (before after : Processing σ) : Prop where
  created : after.filer.created = before.filer.created ++ createdSince before after
  gains : Environment.Gains (createdSince before after) before.environment after.environment

theorem gainsCreated_of (new : List Path) {before after : Processing σ}
    (created : after.filer.created = before.filer.created ++ new)
    (gains : Environment.Gains new before.environment after.environment) :
    GainsCreated before after := by
  have hnew : createdSince before after = new := by
    rw [createdSince, created, List.drop_left]
  exact ⟨by rw [hnew, created], by rw [hnew]; exact gains⟩

theorem gainsCreated_composes : Composes (@GainsCreated σ) := by
  constructor
  · intro run
    exact gainsCreated_of [] (List.append_nil _).symm (.refl _)
  · intro first second third h h'
    refine gainsCreated_of (createdSince first second ++ createdSince second third) ?_
      (h.gains.trans h'.gains)
    rw [h'.created, h.created, List.append_assoc]

theorem Step.gains {before after : Processing σ} (h : Step WritesNoSources before after) :
    GainsCreated before after := by
  cases h with
  | create language name content =>
    rcases h : createSource language name content before with ⟨path, after⟩ | ⟨cause, after⟩
    · have hcreated := (createSource_ok h).2
      refine gainsCreated_of [path] ?_ hcreated.deposited.gains
      show after.filer.created = _
      rw [hcreated.filer]
      rfl
    · obtain ⟨hfiler, hgrows⟩ := createSource_error h
      refine gainsCreated_of [] ?_ (.of_grows (hgrows.mono fun _ _ hmay => hmay.elim))
      show after.filer.created = _
      rw [hfiler, List.append_nil]
  | aside h => exact gainsCreated_of [] (by rw [h.filer, List.append_nil]) (.of_grows h.grows)

theorem WorksInSteps.gains {processor : Processor σ} (h : WorksInSteps WritesNoSources processor)
    (round : Round) : Keeps GainsCreated (processor.process round) :=
  fun run => (h round run).lift gainsCreated_composes Step.gains

/-! ## Rounds -/

/-- What processors keep in every round is kept by the rounds together. -/
theorem Rounds.keeps {R : Processing σ → Processing σ → Prop} (composes : Composes R)
    (settled : ∀ run : Processing σ, R run run.settled) {processors : List (Processor σ)}
    (each : ∀ processor ∈ processors, ∀ round, Keeps R (processor.process round)) {limit : Nat}
    {files : List Path} {round : Round} {run last : Processing σ} {rounds : List (RoundRun σ)}
    {ending : RoundsEnding} (h : Rounds processors limit files round run rounds ending last) :
    R run last := by
  have one : ∀ {round : Round} {run : Processing σ} {called : List (Processor σ × Processing σ)}
      {result : EStateM.Result Failure (Processing σ) Unit},
      InTurn (turn round) processors run called result → R run (finalState result) := by
    intro round run called result turns
    exact (turns.keeps composes fun processor hm => each processor hm round).1
  induction h with
  | exhausted _ _ run => exact composes.refl run
  | failed turns _ => exact one turns
  | finished turns _ => exact one turns
  | unreadable turns _ _ => exact composes.trans (one turns) (settled _)
  | next turns _ _ _ ih => exact composes.trans (composes.trans (one turns) (settled _)) ih

/-- How the rounds over `inputs` end, and the run as it is then; none when the inputs cannot be
    read. -/
def rounds? (registration : Registration σ) (inputs : List Path) (machine : Machine σ) :
    Option (RoundsEnding × Processing σ) :=
  match Round.ofFiles machine.environment inputs with
  | .error _ => none
  | .ok first =>
    some (runRounds registration.processors machine.roundLimit first
      (start registration machine.environment machine.client))

/-- The files that processors create in a run over `inputs`. -/
def createdBy (registration : Registration σ) (inputs : List Path) (machine : Machine σ) :
    List Path :=
  match rounds? registration inputs machine with
  | none => []
  | some (_, run) => run.filer.created

theorem keeps_conclude (ending : RoundsEnding) (diagnostics : Collector) :
    Keeps (@OnlyPrints σ) (conclude ending diagnostics) := by
  have printed := keeps_printDiagnostics (σ := σ) diagnostics.all
  match ending with
  | .over => exact onlyPrints_composes.keeps_bind printed fun _ => onlyPrints_composes.keeps_pure _
  | .failed processor cause =>
    refine onlyPrints_composes.keeps_bind printed fun _ => ?_
    exact onlyPrints_composes.keeps_bind (keeps_printLine _) fun _ =>
      onlyPrints_composes.keeps_pure _
  | .unreadable _ => exact onlyPrints_composes.refl
  | .exhausted => exact onlyPrints_composes.refl

/-- A run of processors creates sources and leaves other sources alone. -/
theorem process_gains {registration : Registration σ}
    (works : ∀ processor ∈ registration.processors, WorksInSteps WritesNoSources processor)
    (inputs : List Path) (machine : Machine σ) :
    Environment.Gains (createdBy registration inputs machine) machine.environment
        (finalState (process registration inputs machine)).environment ∧
      (finalState (process registration inputs machine)).registration? = machine.registration? := by
  rw [createdBy, rounds?, process]
  rcases hfirst : Round.ofFiles machine.environment inputs with cause | first
  · exact ⟨.refl _, rfl⟩
  · simp only
    obtain ⟨rounds, h⟩ := runRounds_account registration.processors machine.roundLimit inputs first
      (start registration machine.environment machine.client)
    have hsettled : ∀ run : Processing σ, GainsCreated run run.settled := by
      intro run
      exact gainsCreated_of [] (List.append_nil _).symm (.refl _)
    have hgains := h.keeps gainsCreated_composes hsettled
      fun processor hm => (works processor hm).gains
    rcases hrun : runRounds registration.processors machine.roundLimit first
      (start registration machine.environment machine.client) with ⟨ending, last⟩
    rw [hrun] at hgains
    simp only at hgains ⊢
    have hprints := keeps_conclude ending last.diagnostics
      { machine with environment := last.environment, client := last.client }
    -- Nothing was created before the first round.
    have hcreated : last.filer.created =
        createdSince (start registration machine.environment machine.client) last :=
      hgains.created.trans (List.nil_append _)
    rw [hprints.environment, hprints.registration, hcreated]
    exact ⟨hgains.gains, rfl⟩

end Processing

/-! ## Plugins -/

namespace Plugin

variable {σ : Type}

/-- The files created when a plugin is called. -/
def createdOnce (args : FrontendArguments) (machine : Machine σ) : List Path :=
  match machine.registration? with
  | none => []
  | some registration =>
    Processing.createdBy registration (Processing.inputs machine.environment args registration)
      machine

/-- The files created when plugins are called in turn. -/
def createdInTurn (args : FrontendArguments) : List Plugin → Machine σ → List Path
  | [], _ => []
  | plugin :: rest, machine =>
    createdOnce args machine ++
      match plugin.run args machine with
      | .ok code after => if code.isOk then createdInTurn args rest after else []
      | .error _ _ => []

/-- The files created by a call of the plugins that are found. -/
def createdByAll (args : FrontendArguments) (machine : Machine σ) : List Path :=
  match discover machine.environment args.pluginClasspaths with
  | .error _ => []
  | .ok plugins => createdInTurn args plugins machine

variable {registration : Registration σ}

theorem run_eq (args : FrontendArguments) (plugin : Plugin) {machine : Machine σ}
    (installed : machine.registration? = some registration) :
    plugin.run args machine = Processing.process registration
      (Processing.inputs machine.environment args registration) machine := by
  rw [run, get_bind]
  simp only [installed]

theorem run_gains
    (works : ∀ processor ∈ registration.processors,
      Processing.WorksInSteps Processing.WritesNoSources processor)
    (args : FrontendArguments) (plugin : Plugin) (machine : Machine σ)
    (installed : machine.registration? = some registration) :
    Environment.Gains (createdOnce args machine) machine.environment
        (finalState (plugin.run args machine)).environment ∧
      (finalState (plugin.run args machine)).registration? = some registration := by
  rw [createdOnce, installed, run_eq args plugin installed]
  obtain ⟨hgains, hregistration⟩ := Processing.process_gains works
    (Processing.inputs machine.environment args registration) machine
  exact ⟨hgains, hregistration.trans installed⟩

theorem runInTurn_gains
    (works : ∀ processor ∈ registration.processors,
      Processing.WorksInSteps Processing.WritesNoSources processor)
    (args : FrontendArguments) (plugins : List Plugin) (machine : Machine σ)
    (installed : machine.registration? = some registration) :
    Environment.Gains (createdInTurn args plugins machine) machine.environment
      (finalState (runInTurn args plugins machine)).environment := by
  induction plugins generalizing machine with
  | nil => exact .refl _
  | cons plugin rest ih =>
    obtain ⟨hgains, hinstalled⟩ := run_gains works args plugin machine installed
    rw [createdInTurn, runInTurn, bind_eq]
    rcases hrun : plugin.run args machine with ⟨code, after⟩ | ⟨cause, after⟩
    · rw [hrun] at hgains hinstalled
      simp only
      split
      · exact hgains.trans (ih after hinstalled)
      · rw [List.append_nil]
        exact hgains
    · rw [hrun] at hgains
      rw [List.append_nil]
      exact hgains

/-- A call of the plugins creates sources and leaves other sources alone. -/
theorem runAll_gains
    (works : ∀ processor ∈ registration.processors,
      Processing.WorksInSteps Processing.WritesNoSources processor)
    (args : FrontendArguments) (machine : Machine σ)
    (installed : machine.registration? = some registration) :
    Environment.Gains (createdByAll args machine) machine.environment
      (finalState (runAll args machine)).environment := by
  rw [runAll, get_bind, createdByAll]
  rcases discover machine.environment args.pluginClasspaths with cause | plugins
  · exact .refl _
  · exact runInTurn_gains works args plugins machine installed

end Plugin

end KotlinHarness
