/-
  What annotation processing makes of the files.

  A front end that is to write stubs does something of its own first, and calls the compiler plugins
  in the end, unless it gives up before (`PluginHost`).  Plugins run processors; a `Generation` is
  what their call made of the files: what was there when they were called, what the filer created,
  and what is there afterwards.

  When the stage succeeds, the sources that came to be since the plugins were called are those that
  the filer created (`generation_gains`).  The launcher of a Kotlin distribution is such a front
  end.
-/
import KotlinHarness.Pipeline.Stages
import KotlinHarness.Proofs.Processing.Creation
import KotlinHarness.Proofs.Processing.Indifferent

namespace KotlinHarness

variable {σ : Type}

/-! ## Front ends that call plugins -/

/-- A front end that, when it is to write stubs, gives up or calls the plugins in the end. -/
structure PluginHost (frontend : Frontend σ) where
  /-- What it does before, and the exit code if it gives up. -/
  prepare : FrontendArguments → MachineAction σ (Option ExitCode)
  exec_stubs : ∀ args, args.mode = .stubs → frontend.exec args = (do
    match ← prepare args with
    | some code => pure code
    | none => Plugin.runAll args)
  registration : ∀ args,
    Keeps (fun before after => after.registration? = before.registration?) (prepare args)

/-- What the processors of a call made of the files. -/
structure Generation where
  /-- The files when they were called. -/
  before : Environment
  /-- What the filer created. -/
  created : List Path
  after : Environment

namespace PluginHost

variable {frontend : Frontend σ}

/-- The machine with a registration installed on its thread. -/
def holding (registration : Registration σ) (machine : Machine σ) : Machine σ :=
  { machine with registrations := machine.registrations.install machine.thread registration }

theorem registration?_holding (registration : Registration σ) (machine : Machine σ) :
    (holding registration machine).registration? = some registration := by
  simp [holding, Machine.registration?, HandoffSlot.get?, HandoffSlot.install]

/-- What the annotation processing stage does until the plugins are called: the arguments of the
    call, and the exit code if the front end gives up. -/
def approach (host : PluginHost frontend) (registration : Registration σ) :
    ContextAction σ (FrontendArguments × Option ExitCode) := do
  let context ← get
  let workspace := context.resolution.workspace
  let staged := StagedSource.ofLanguage .kotlin context.staged
  let sources ← Context.onMachine (Machine.onEnvironment (Stage.kaptSources workspace staged))
  Context.onMachine (Machine.onEnvironment (Plugin.register workspace.registrar))
  let args := Stage.kaptArguments registration context sources
  let given ← Context.onMachine fun machine => host.prepare args (holding registration machine)
  pure (args, given)

/-- What the annotation processing stage makes of the files. -/
def generation (host : PluginHost frontend) (registration : Registration σ) (context : Context σ) :
    Generation :=
  match host.approach registration context with
  | .ok (args, none) reached =>
    ⟨reached.machine.environment, Plugin.createdByAll args reached.machine,
      (finalState (Plugin.runAll args reached.machine)).environment⟩
  | .ok (_, some _) reached | .error _ reached =>
    ⟨reached.machine.environment, [], reached.machine.environment⟩

theorem onMachine_ok {α : Type} {action : MachineAction σ α} {context after : Context σ} {value : α}
    (h : Context.onMachine action context = .ok value after) :
    action context.machine = .ok value after.machine ∧ after.resolution = context.resolution ∧
      after.staged = context.staged := by
  rw [Context.onMachine] at h
  split at h
  · next heq =>
    cases h
    exact ⟨heq, rfl, rfl⟩
  · cases h

theorem onEnvironment_ok {α : Type} {action : EnvironmentAction α} {context after : Context σ}
    {value : α} (h : Context.onMachine (Machine.onEnvironment action) context = .ok value after) :
    action context.machine.environment = .ok value after.machine.environment ∧
      after.resolution = context.resolution ∧ after.staged = context.staged := by
  obtain ⟨h, hkept⟩ := onMachine_ok h
  refine ⟨?_, hkept⟩
  rw [Machine.onEnvironment] at h
  split at h
  · next heq =>
    obtain ⟨rfl, hafter⟩ := EStateM.Result.ok.inj h
    rw [← hafter]
    exact heq
  · cases h

theorem withRegistration_ok {α : Type} {registration : Registration σ} {action : MachineAction σ α}
    {machine after : Machine σ} {value : α}
    (h : Machine.withRegistration registration action machine = .ok value after) :
    ∃ last, action (holding registration machine) = .ok value last ∧
      after = last.clearRegistration := by
  rw [Machine.withRegistration] at h
  split at h
  · next heq =>
    cases h
    exact ⟨_, heq, rfl⟩
  · cases h

/-- The stage succeeds when its approach does, and either the front end gave up or the plugins were
    called with success. -/
theorem runKapt_ok (host : PluginHost frontend) {registration : Registration σ}
    {context ended : Context σ} {code : ExitCode}
    (h : Stage.runKapt frontend registration context = .ok code ended) :
    ended.resolution = context.resolution ∧ ended.staged = context.staged ∧
      ∃ args given reached last, host.approach registration context = .ok (args, given) reached ∧
        reached.machine.registration? = some registration ∧
        ended.machine = last.clearRegistration ∧
        match given with
        | some _ => last = reached.machine
        | none => Plugin.runAll args reached.machine = .ok code last := by
  rw [Stage.runKapt, get_bind] at h
  obtain ⟨sources, first, hsources, h⟩ := of_bind_ok h
  obtain ⟨_, second, hregister, h⟩ := of_bind_ok h
  obtain ⟨-, hresolution, hstaged⟩ := onMachine_ok hsources
  obtain ⟨-, hresolution', hstaged'⟩ := onMachine_ok hregister
  obtain ⟨hwith, hresolution'', hstaged''⟩ := onMachine_ok h
  refine ⟨hresolution''.trans (hresolution'.trans hresolution),
    hstaged''.trans (hstaged'.trans hstaged), ?_⟩
  obtain ⟨last, hexec, hended⟩ := withRegistration_ok hwith
  rw [host.exec_stubs _ rfl] at hexec
  obtain ⟨given, reached, hprepare, hplugins⟩ := of_bind_ok hexec
  have hinstalled : reached.registration? = some registration :=
    ((host.registration _).of_ok hprepare).trans (registration?_holding registration _)
  have hgiven : Context.onMachine
      (fun machine => host.prepare (Stage.kaptArguments registration context sources)
        (holding registration machine)) second = .ok given { second with machine := reached } := by
    simp only [Context.onMachine, hprepare]
  refine ⟨Stage.kaptArguments registration context sources, given,
    { second with machine := reached }, last, ?_, hinstalled, hended, ?_⟩
  · rw [approach, get_bind]
    simp only [bind_eq, hsources, hregister, hgiven]
    rfl
  · cases given with
    | some code =>
      cases hplugins
      rfl
    | none => exact hplugins

/-- When the stage succeeded, its processors created sources, and other sources were left alone since
    they were called. -/
theorem generation_gains (host : PluginHost frontend) {registration : Registration σ}
    (works : ∀ processor ∈ registration.processors,
      Processing.WorksInSteps Processing.WritesNoSources processor)
    {context ended : Context σ} {code : ExitCode}
    (h : Stage.runKapt frontend registration context = .ok code ended) :
    ended.machine.environment = (host.generation registration context).after ∧
      Environment.Gains (host.generation registration context).created
        (host.generation registration context).before
        (host.generation registration context).after := by
  obtain ⟨-, -, args, given, reached, last, happroach, hinstalled, hended, hgiven⟩ :=
    host.runKapt_ok h
  rw [hended, generation, happroach]
  cases given with
  | some code =>
    simp only at hgiven ⊢
    rw [hgiven]
    exact ⟨rfl, .refl _⟩
  | none =>
    simp only at hgiven ⊢
    have hgains := Plugin.runAll_gains works args reached.machine hinstalled
    rw [hgiven] at hgains ⊢
    exact ⟨rfl, hgains⟩

end PluginHost

/-! ## The launcher -/

namespace Launcher

open Machine

theorem keeps_runTool (meaning : Int → ExitCode) (command : Command) :
    Keeps (@OnlyPrints σ) (runTool meaning command) := by
  refine onlyPrints_composes.keeps_runTool (fun machine command => ?_) keeps_printLine meaning command
  rw [runMerged]
  split
  · exact onlyPrints_composes.refl machine
  · split <;> exact ⟨rfl, rfl, rfl⟩

/-- What the launcher does for stubs before the plugins are called. -/
def prepare (launcher : Launcher) (args : FrontendArguments) :
    MachineAction σ (Option ExitCode) := do
  match launcher.path? (← get).environment with
  | none =>
    printLine "error: kotlinc not found; configure \x60kotlinc\x60 or put it on PATH"
    pure (some .internalError)
  | some path =>
    let code ← runForStubs path args
    pure (if code.isOk then none else some code)

theorem keeps_run (path : Path) (args : FrontendArguments) :
    Keeps (@OnlyPrints σ) (run path args) :=
  onlyPrints_composes.keeps_bind onlyPrints_composes.refl fun _ => keeps_runTool _ _

theorem keeps_runForStubs (path : Path) (args : FrontendArguments) :
    Keeps (@OnlyPrints σ) (runForStubs path args) := by
  rw [runForStubs]
  split
  · exact keeps_run path args
  · exact onlyPrints_composes.keeps_bind (keeps_printLine _) fun _ =>
      onlyPrints_composes.keeps_pure _

theorem keeps_prepare (launcher : Launcher) (args : FrontendArguments) :
    Keeps (@OnlyPrints σ) (launcher.prepare args) := by
  refine onlyPrints_composes.keeps_bind onlyPrints_composes.refl fun machine => ?_
  split
  · exact onlyPrints_composes.keeps_bind (keeps_printLine _) fun _ =>
      onlyPrints_composes.keeps_pure _
  · exact onlyPrints_composes.keeps_bind (keeps_runForStubs _ args) fun _ =>
      onlyPrints_composes.keeps_pure _

/-- The launcher calls the plugins last. -/
def host (launcher : Launcher) : PluginHost (launcher.frontend : Frontend σ) where
  prepare := launcher.prepare
  exec_stubs := by
    intro args hmode
    funext machine
    show launcher.exec args machine = _
    rw [exec, get_bind, bind_eq, prepare, get_bind]
    simp only [hmode]
    rcases launcher.path? machine.environment with - | path
    · simp only [bind_eq]
      rcases printLine _ machine with ⟨_, after⟩ | ⟨cause, after⟩ <;> rfl
    · simp only [bind_eq]
      rcases runForStubs _ args machine with ⟨code, after⟩ | ⟨cause, after⟩
      · cases code <;> rfl
      · rfl
  registration := fun args machine => (keeps_prepare launcher args machine).registration

/-- Compiling changes no file that the harness knows of. -/
theorem keeps_exec_compile (launcher : Launcher) (args : FrontendArguments)
    (hmode : args.mode = .compile) : Keeps (@OnlyPrints σ) (launcher.exec args) := by
  refine onlyPrints_composes.keeps_bind onlyPrints_composes.refl fun machine => ?_
  split
  · exact onlyPrints_composes.keeps_bind (keeps_printLine _) fun _ =>
      onlyPrints_composes.keeps_pure _
  · rw [hmode]
    exact keeps_run _ args

end Launcher

end KotlinHarness
