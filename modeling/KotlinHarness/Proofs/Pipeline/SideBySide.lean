/-
  Compile calls that run at the same time on threads of one process.

  The threads share everything: files, system properties, and the slot of registrations.  Which of them
  goes on is not known, so a schedule is any list of turns, each of some thread.  In the annotation
  processing stage of a call the thread installs the registration of the call, lets the front end do
  what it does, and takes the registration back; plugins are run in between, and only there
  (`Turn.inOrder`).  The turns of a stage are those of the run it makes alone, one for each plugin that
  is run (`PluginHost.turns`).

    * `registrations_play`  what a schedule makes of the slot is told by its steps on the slot
    * `machine_runKapt`     the stage of a call, run alone, is its row of turns
    * `reads_own`           in every schedule a plugin runs the processors of the call it is run in
-/
import KotlinHarness.Proofs.Pipeline.Generation
import KotlinHarness.Proofs.Processing.Indifferent
import KotlinHarness.Proofs.Scope.Handover

namespace KotlinHarness

open HandoffSlot

variable {σ : Type}

/-! ## What leaves the registrations alone -/

namespace Machine

/-- The registrations of all threads stay, and the thread is the same. -/
structure LeavesRegistrations (before after : Machine σ) : Prop where
  registrations : after.registrations = before.registrations
  thread : after.thread = before.thread

theorem indifferent_leavesRegistrations : Indifferent (@LeavesRegistrations σ) where
  refl _ := ⟨rfl, rfl⟩
  trans h h' := ⟨h'.registrations.trans h.registrations, h'.thread.trans h.thread⟩
  changes _ _ _ _ := ⟨rfl, rfl⟩

end Machine

open Machine

/-- Processors cannot reach the registrations. -/
theorem Plugin.leaves_run (args : FrontendArguments) (plugin : Plugin) :
    Keeps (@LeavesRegistrations σ) (plugin.run args) :=
  indifferent_leavesRegistrations.keeps_run args plugin

/-! ## Turns -/

/-- What a thread does before another one may go on. -/
inductive Turn (σ : Type) where
  /-- Anything that leaves the registrations alone. -/
  | work (change : Machine σ → Machine σ)
      (leaves : ∀ machine, LeavesRegistrations machine (change machine))
  /-- The annotation processing stage of a call installs the registration of the call. -/
  | enter (registration : Registration σ)
  /-- A plugin is run. -/
  | plugin (args : FrontendArguments) (which : Plugin)
  /-- The stage takes the registration back. -/
  | leave

namespace Turn

/-- What a turn makes of the machine of its thread. -/
def perform : Turn σ → Machine σ → Machine σ
  | work change _, machine => change machine
  | enter registration, machine => PluginHost.holding registration machine
  | plugin args which, machine => finalState (which.run args machine)
  | leave, machine => machine.clearRegistration

/-- The step of a turn on the slot of registrations, if it has one. -/
def step? (thread : ThreadId) : Turn σ → Option (Step (Registration σ))
  | work _ _ => none
  | enter registration => some (.install thread registration)
  | plugin _ _ => some (.get thread)
  | leave => some (.drop thread)

def isWork : Turn σ → Bool
  | work _ _ => true
  | enter _ | plugin _ _ | leave => false

def isPlugin : Turn σ → Bool
  | plugin _ _ => true
  | work _ _ | enter _ | leave => false

/-- Whether no stage is entered or left by it. -/
def staysInside (turn : Turn σ) : Bool := turn.isWork || turn.isPlugin

/-- The turns of one thread, inside an annotation processing stage or not: stages follow each other,
    and plugins are run inside a stage. -/
def inOrder : Bool → List (Turn σ) → Bool
  | _, [] => true
  | inside, work _ _ :: rest => inOrder inside rest
  | inside, enter _ :: rest => !inside && inOrder true rest
  | inside, plugin _ _ :: rest => inside && inOrder inside rest
  | inside, leave :: rest => inside && inOrder false rest

/-- An action that leaves the registrations alone, as a turn. -/
def ofAction {α : Type} (action : MachineAction σ α) (leaves : Keeps LeavesRegistrations action) :
    Turn σ :=
  .work (fun machine => finalState (action machine)) leaves

end Turn

/-- Turns of all threads, in the order in which they happen. -/
abbrev Schedule (σ : Type) := List (ThreadId × Turn σ)

namespace Schedule

/-- The turns of one thread. -/
def turnsOf (thread : ThreadId) (schedule : Schedule σ) : List (Turn σ) :=
  (schedule.filter (·.1 == thread)).map (·.2)

/-- A schedule in which one thread alone has its turns. -/
def alone (thread : ThreadId) (turns : List (Turn σ)) : Schedule σ :=
  turns.map fun turn => (thread, turn)

/-- The steps of a schedule on the slot of registrations. -/
def steps (schedule : Schedule σ) : List (Step (Registration σ)) :=
  schedule.filterMap fun entry => entry.2.step? entry.1

theorem steps_cons (thread : ThreadId) (turn : Turn σ) (rest : Schedule σ) :
    steps ((thread, turn) :: rest) = (turn.step? thread).toList ++ steps rest := by
  rw [steps, List.filterMap_cons]
  cases turn <;> rfl

end Schedule

namespace Machine

/-- The machine as the thread sees it whose turn it is. -/
def onThread (thread : ThreadId) (machine : Machine σ) : Machine σ := { machine with thread }

/-- The machine after a schedule. -/
def play (machine : Machine σ) (schedule : Schedule σ) : Machine σ :=
  schedule.foldl (fun machine entry => entry.2.perform (machine.onThread entry.1)) machine

/-- The machine after turns of its own thread. -/
def playOwn (machine : Machine σ) (turns : List (Turn σ)) : Machine σ :=
  machine.play (.alone machine.thread turns)

end Machine

theorem Turn.thread_perform (turn : Turn σ) (machine : Machine σ) :
    (turn.perform machine).thread = machine.thread := by
  cases turn with
  | work change leaves => exact (leaves machine).thread
  | enter registration => rfl
  | plugin args which => exact (Plugin.leaves_run args which machine).thread
  | leave => rfl

/-- A turn works on the slot as its step does. -/
theorem Turn.registrations_perform (turn : Turn σ) (machine : Machine σ) :
    (turn.perform machine).registrations =
      (turn.step? machine.thread).elim machine.registrations (·.act machine.registrations) := by
  cases turn with
  | work change leaves => exact (leaves machine).registrations
  | enter registration => rfl
  | plugin args which => exact (Plugin.leaves_run args which machine).registrations
  | leave => rfl

theorem Machine.registrations_play (machine : Machine σ) (schedule : Schedule σ) :
    (machine.play schedule).registrations =
      schedule.steps.foldl (fun slot step => step.act slot) machine.registrations := by
  induction schedule generalizing machine with
  | nil => rfl
  | cons entry rest ih =>
    obtain ⟨thread, turn⟩ := entry
    refine (ih (turn.perform (machine.onThread thread))).trans ?_
    rw [turn.registrations_perform, Schedule.steps_cons, List.foldl_append]
    show List.foldl _ ((turn.step? thread).elim machine.registrations _) _ = _
    cases turn.step? thread <;> rfl

/-! ## Threads that run calls -/

namespace Schedule

theorem own_steps (thread : ThreadId) (schedule : Schedule σ) :
    own thread schedule.steps = (schedule.turnsOf thread).filterMap (Turn.step? thread) := by
  induction schedule with
  | nil => rfl
  | cons entry rest ih =>
    obtain ⟨other, turn⟩ := entry
    have happend : own thread (steps ((other, turn) :: rest)) =
        own thread (turn.step? other).toList ++ own thread (steps rest) := by
      rw [steps_cons, own, List.filter_append, own, own]
    rw [happend, ih, turnsOf, turnsOf]
    by_cases hother : other = thread
    · subst hother
      rw [List.filter_cons_of_pos (by simp), List.map_cons, List.filterMap_cons]
      cases turn <;> simp [Turn.step?, own, Step.thread]
    · rw [List.filter_cons_of_neg (by simpa using hother)]
      cases turn <;> simp [Turn.step?, own, Step.thread, hother]

end Schedule

/-- Threads that run calls one after the other use their guards one after the other. -/
theorem Turn.alternates_of_inOrder {thread : ThreadId} {inside : Bool} {turns : List (Turn σ)}
    (h : inOrder inside turns = true) :
    Alternates inside (turns.filterMap (step? thread)) = true := by
  induction turns generalizing inside with
  | nil => rfl
  | cons turn rest ih =>
    cases turn with
    | work change leaves => exact ih h
    | enter registration =>
      obtain ⟨houtside, hrest⟩ := Bool.and_eq_true_iff.1 h
      exact Bool.and_eq_true_iff.2 ⟨houtside, ih hrest⟩
    | plugin args which => exact ih (Bool.and_eq_true_iff.1 h).2
    | leave =>
      obtain ⟨hinside, hrest⟩ := Bool.and_eq_true_iff.1 h
      exact Bool.and_eq_true_iff.2 ⟨hinside, ih hrest⟩

/-- The turns end within a stage: it installed the registration and was not left since. -/
def Turn.EndWithin (registration : Registration σ) (turns : List (Turn σ)) : Prop :=
  ∃ before since, turns = before ++ .enter registration :: since ∧
    ∀ turn ∈ since, turn.staysInside = true

theorem Turn.EndWithin.cons {registration : Registration σ} {turns : List (Turn σ)} (turn : Turn σ)
    (h : EndWithin registration turns) : EndWithin registration (turn :: turns) := by
  obtain ⟨before, since, rfl, stays⟩ := h
  exact ⟨turn :: before, since, rfl, stays⟩

/-- Where a plugin is run a stage has been entered and not been left. -/
theorem Turn.endWithin_of_inOrder {inside : Bool} {earlier later : List (Turn σ)}
    {args : FrontendArguments} {plugin : Plugin}
    (h : inOrder inside (earlier ++ .plugin args plugin :: later) = true) :
    (inside = true ∧ ∀ turn ∈ earlier, turn.staysInside = true) ∨
      ∃ registration, EndWithin registration earlier := by
  induction earlier generalizing inside with
  | nil => exact .inl ⟨(Bool.and_eq_true_iff.1 h).1, fun _ hm => absurd hm List.not_mem_nil⟩
  | cons turn rest ih =>
    cases turn with
    | work change leaves =>
      rcases ih h with ⟨hinside, stays⟩ | ⟨registration, within⟩
      · exact .inl ⟨hinside, List.forall_mem_cons.2 ⟨rfl, stays⟩⟩
      · exact .inr ⟨registration, within.cons _⟩
    | enter registration =>
      rcases ih (Bool.and_eq_true_iff.1 h).2 with ⟨-, stays⟩ | ⟨other, within⟩
      · exact .inr ⟨registration, [], rest, rfl, stays⟩
      · exact .inr ⟨other, within.cons _⟩
    | plugin other which =>
      rcases ih (Bool.and_eq_true_iff.1 h).2 with ⟨hinside, stays⟩ | ⟨registration, within⟩
      · exact .inl ⟨hinside, List.forall_mem_cons.2 ⟨rfl, stays⟩⟩
      · exact .inr ⟨registration, within.cons _⟩
    | leave =>
      rcases ih (Bool.and_eq_true_iff.1 h).2 with ⟨hfalse, -⟩ | ⟨registration, within⟩
      · cases hfalse
      · exact .inr ⟨registration, within.cons _⟩

/-! ## The stage as a row of turns -/

/-- The row of a stage that installs a registration: work, and then, while the registration is
    installed, more work and the plugins. -/
def Turn.IsCall (registration : Registration σ) (turns : List (Turn σ)) : Prop :=
  ∃ before prepared plugins,
    turns = before ++ .enter registration :: (prepared ++ plugins ++ [.leave]) ∧
      (∀ turn ∈ before ++ prepared, turn.isWork = true) ∧
      ∀ turn ∈ plugins, turn.isPlugin = true

/-- The row of a stage, by what comes of its beginning: a stage that fails then does not get to install
    its registration. -/
inductive Turn.IsStage (registration : Registration σ) :
    EStateM.Result Failure (Machine σ) (List Path) → List (Turn σ) → Prop
  | entered {sources : List Path} {begun : Machine σ} {turns : List (Turn σ)}
      (call : IsCall registration turns) : IsStage registration (.ok sources begun) turns
  | stopped {cause : Failure} {begun : Machine σ} {turns : List (Turn σ)}
      (work : ∀ turn ∈ turns, turn.isWork = true) : IsStage registration (.error cause begun) turns

theorem Turn.inOrder_work {inside : Bool} {turns : List (Turn σ)}
    (h : ∀ turn ∈ turns, turn.isWork = true) (rest : List (Turn σ)) :
    inOrder inside (turns ++ rest) = inOrder inside rest := by
  induction turns with
  | nil => rfl
  | cons turn turns ih =>
    obtain ⟨hturn, hturns⟩ := List.forall_mem_cons.1 h
    cases turn with
    | work change leaves => exact ih hturns
    | enter _ | plugin _ _ | leave => cases hturn

theorem Turn.inOrder_plugins {turns : List (Turn σ)} (h : ∀ turn ∈ turns, turn.isPlugin = true)
    (rest : List (Turn σ)) : inOrder true (turns ++ rest) = inOrder true rest := by
  induction turns with
  | nil => rfl
  | cons turn turns ih =>
    obtain ⟨hturn, hturns⟩ := List.forall_mem_cons.1 h
    cases turn with
    | plugin args which => exact ih hturns
    | work _ _ | enter _ | leave => cases hturn

/-- Stages that follow each other are in order. -/
theorem Turn.IsStage.inOrder {registration : Registration σ} {turns : List (Turn σ)}
    {begun : EStateM.Result Failure (Machine σ) (List Path)} (h : IsStage registration begun turns)
    (rest : List (Turn σ)) : inOrder false (turns ++ rest) = Turn.inOrder false rest := by
  rcases h with ⟨before, prepared, plugins, rfl, hwork, hplugins⟩ | hwork
  swap
  · exact inOrder_work hwork rest
  obtain ⟨hbefore, hprepared⟩ := List.forall_mem_append.1 hwork
  rw [List.append_assoc, inOrder_work hbefore, List.cons_append, List.append_assoc, List.append_assoc]
  show Turn.inOrder true _ = _
  rw [inOrder_work hprepared, inOrder_plugins hplugins]
  rfl

/-- The turns of plugins that are run in turn, up to the first that does not succeed. -/
def Plugin.turns (args : FrontendArguments) : List Plugin → Machine σ → List (Turn σ)
  | [], _ => []
  | plugin :: rest, machine =>
    .plugin args plugin ::
      match plugin.run args machine with
      | .ok .ok after => turns args rest after
      | .ok _ _ | .error _ _ => []

/-- The turns of the plugins on the plugin class path of a call. -/
def Plugin.allTurns (args : FrontendArguments) (machine : Machine σ) : List (Turn σ) :=
  match discover machine.environment args.pluginClasspaths with
  | .ok plugins => turns args plugins machine
  | .error _ => []

/-- What the annotation processing stage does before it installs the registration. -/
def Stage.begin (context : Context σ) : MachineAction σ (List Path) := do
  let workspace := context.resolution.workspace
  let staged := StagedSource.ofLanguage .kotlin context.staged
  let sources ← Machine.onEnvironment (Stage.kaptSources workspace staged)
  Machine.onEnvironment (Plugin.register workspace.registrar)
  pure sources

theorem Stage.leaves_begin (context : Context σ) :
    Keeps LeavesRegistrations (Stage.begin context) :=
  have leaves := indifferent_leavesRegistrations (σ := σ)
  leaves.keeps_bind (leaves.keeps_onEnvironment _) fun _ =>
    leaves.keeps_bind (leaves.keeps_onEnvironment _) fun _ => leaves.keeps_pure _

namespace PluginHost

variable {frontend : Frontend σ}

/-- The turns of a front end that is to write stubs: its own work, and the plugins unless it gives
    up. -/
def frontendTurns (host : PluginHost frontend)
    (leaves : ∀ args, Keeps LeavesRegistrations (host.prepare args)) (args : FrontendArguments)
    (machine : Machine σ) : List (Turn σ) :=
  .ofAction (host.prepare args) (leaves args) ::
    match host.prepare args machine with
    | .ok none reached => Plugin.allTurns args reached
    | .ok (some _) _ | .error _ _ => []

/-- The turns of the annotation processing stage of a call; it does not get to install the registration
    when it fails before. -/
def turns (host : PluginHost frontend)
    (leaves : ∀ args, Keeps LeavesRegistrations (host.prepare args)) (registration : Registration σ)
    (context : Context σ) : List (Turn σ) :=
  .ofAction (Stage.begin context) (Stage.leaves_begin context) ::
    match Stage.begin context context.machine with
    | .ok sources begun =>
      .enter registration ::
        (host.frontendTurns leaves (Stage.kaptArguments registration context sources)
          (holding registration begun) ++ [.leave])
    | .error _ _ => []

end PluginHost

/-! ### The run of a stage -/

theorem Machine.playOwn_cons (machine : Machine σ) (turn : Turn σ) (rest : List (Turn σ)) :
    machine.playOwn (turn :: rest) = (turn.perform machine).playOwn rest := by
  rw [playOwn, playOwn, turn.thread_perform]
  rfl

theorem Machine.playOwn_append (machine : Machine σ) (turns later : List (Turn σ)) :
    machine.playOwn (turns ++ later) = (machine.playOwn turns).playOwn later := by
  induction turns generalizing machine with
  | nil => rfl
  | cons turn rest ih => rw [List.cons_append, playOwn_cons, playOwn_cons, ih]

theorem Plugin.finalState_runInTurn (args : FrontendArguments) (plugins : List Plugin)
    (machine : Machine σ) :
    finalState (runInTurn args plugins machine) = machine.playOwn (turns args plugins machine) := by
  induction plugins generalizing machine with
  | nil => rfl
  | cons plugin rest ih =>
    have hperform : (Turn.plugin args plugin).perform machine =
      finalState (plugin.run args machine) := rfl
    rw [runInTurn, turns, playOwn_cons, hperform, bind_eq]
    rcases plugin.run args machine with ⟨- | - | - | -, after⟩ | ⟨cause, after⟩
    · exact ih after
    all_goals rfl

theorem Plugin.finalState_runAll (args : FrontendArguments) (machine : Machine σ) :
    finalState (runAll args machine) = machine.playOwn (allTurns args machine) := by
  rw [runAll, get_bind, allTurns]
  rcases discover machine.environment args.pluginClasspaths with cause | plugins
  · rfl
  · exact finalState_runInTurn args plugins machine

theorem Plugin.isPlugin_of_mem_turns {args : FrontendArguments} {plugins : List Plugin}
    {machine : Machine σ} {turn : Turn σ} (h : turn ∈ turns args plugins machine) :
    turn.isPlugin = true := by
  induction plugins generalizing machine with
  | nil => exact absurd h List.not_mem_nil
  | cons plugin rest ih =>
    rcases List.mem_cons.1 h with rfl | h
    · rfl
    · split at h
      · exact ih h
      · exact absurd h List.not_mem_nil
      · exact absurd h List.not_mem_nil

theorem Plugin.isPlugin_of_mem_allTurns {args : FrontendArguments} {machine : Machine σ}
    {turn : Turn σ} (h : turn ∈ allTurns args machine) : turn.isPlugin = true := by
  rw [allTurns] at h
  split at h
  · exact isPlugin_of_mem_turns h
  · exact absurd h List.not_mem_nil

namespace PluginHost

variable {frontend : Frontend σ} {host : PluginHost frontend}
  {leaves : ∀ args, Keeps LeavesRegistrations (host.prepare args)}

theorem finalState_exec (leaves : ∀ args, Keeps LeavesRegistrations (host.prepare args))
    (args : FrontendArguments) (stubs : args.mode = .stubs) (machine : Machine σ) :
    finalState (frontend.exec args machine) =
      machine.playOwn (host.frontendTurns leaves args machine) := by
  have hperform : (Turn.ofAction (host.prepare args) (leaves args)).perform machine =
    finalState (host.prepare args machine) := rfl
  rw [host.exec_stubs args stubs, bind_eq, frontendTurns, playOwn_cons, hperform]
  rcases host.prepare args machine with ⟨- | code, reached⟩ | ⟨cause, reached⟩
  · exact Plugin.finalState_runAll args reached
  · rfl
  · rfl

/-- An action on the machine of a call changes the machine only as it does alone. -/
theorem machine_onMachine {α : Type} (action : MachineAction σ α) (context : Context σ) :
    (finalState (Context.onMachine action context)).machine = finalState (action context.machine) := by
  rw [Context.onMachine]
  cases action context.machine <;> rfl

theorem finalState_withRegistration {α : Type} (registration : Registration σ)
    (action : MachineAction σ α) (machine : Machine σ) :
    finalState (Machine.withRegistration registration action machine) =
      (finalState (action (holding registration machine))).clearRegistration := by
  rw [Machine.withRegistration, ← holding]
  cases action (holding registration machine) <;> rfl

/-- The stage goes on with the front end once it has begun. -/
theorem runKapt_machine (registration : Registration σ) (context : Context σ) :
    (finalState (Stage.runKapt frontend registration context)).machine =
      match Stage.begin context context.machine with
      | .ok sources begun =>
        (finalState (frontend.exec (Stage.kaptArguments registration context sources)
          (holding registration begun))).clearRegistration
      | .error _ begun => begun := by
  rw [Stage.runKapt, get_bind, Stage.begin, bind_eq, bind_eq, Context.onMachine]
  rcases Machine.onEnvironment _ context.machine with ⟨sources, first⟩ | ⟨cause, first⟩
  · simp only
    rw [bind_eq, bind_eq, Context.onMachine]
    rcases Machine.onEnvironment _ first with ⟨_, second⟩ | ⟨cause, second⟩
    · exact (machine_onMachine _ _).trans (finalState_withRegistration _ _ _)
    · rfl
  · rfl

/-- The annotation processing stage, with a front end that calls the plugins in the end, is its row of
    turns. -/
theorem machine_runKapt (registration : Registration σ) (context : Context σ) :
    (finalState (Stage.runKapt frontend registration context)).machine =
      context.machine.playOwn (host.turns leaves registration context) := by
  have hperform : (Turn.ofAction (Stage.begin context) (Stage.leaves_begin context)).perform
    context.machine = finalState (Stage.begin context context.machine) := rfl
  rw [runKapt_machine, turns, playOwn_cons, hperform]
  rcases Stage.begin context context.machine with ⟨sources, begun⟩ | ⟨cause, begun⟩
  · simp only
    rw [finalState_exec leaves _ rfl]
    show _ = begun.playOwn _
    rw [playOwn_cons, playOwn_append]
    rfl
  · rfl

/-- A stage that begins well installs the registration and takes it back. -/
theorem isCall_turns {registration : Registration σ} {context : Context σ} {sources : List Path}
    {begun : Machine σ} (h : Stage.begin context context.machine = .ok sources begun) :
    Turn.IsCall registration (host.turns leaves registration context) := by
  let args := Stage.kaptArguments registration context sources
  let plugins : List (Turn σ) :=
    match host.prepare args (holding registration begun) with
    | .ok none reached => Plugin.allTurns args reached
    | .ok (some _) _ | .error _ _ => []
  refine ⟨[.ofAction _ (Stage.leaves_begin context)], [.ofAction _ (leaves args)], plugins, ?_, ?_, ?_⟩
  · rw [turns, h]
    rfl
  · intro turn hm
    rcases List.mem_cons.1 hm with rfl | hm
    · rfl
    · rw [List.mem_singleton.1 hm]
      rfl
  · intro turn hm
    dsimp only [plugins] at hm
    split at hm
    · exact Plugin.isPlugin_of_mem_allTurns hm
    · exact absurd hm List.not_mem_nil
    · exact absurd hm List.not_mem_nil

theorem isStage_turns (registration : Registration σ) (context : Context σ) :
    Turn.IsStage registration (Stage.begin context context.machine)
      (host.turns leaves registration context) := by
  rcases hbegin : Stage.begin context context.machine with ⟨sources, begun⟩ | ⟨cause, begun⟩
  · exact .entered (isCall_turns hbegin)
  · refine .stopped fun turn hm => ?_
    simp only [turns, hbegin, List.mem_singleton] at hm
    rw [hm]
    rfl

end PluginHost

/-- The launcher does not touch the registrations before it calls the plugins. -/
theorem Launcher.leaves_prepare (launcher : Launcher) (args : FrontendArguments) :
    Keeps (@LeavesRegistrations σ) (launcher.prepare args) := by
  have leaves := indifferent_leavesRegistrations (σ := σ)
  have hstubs : ∀ path, Keeps (@LeavesRegistrations σ) (runForStubs path args) := by
    intro path
    rw [runForStubs]
    split
    · exact leaves.keeps_bind leaves.refl fun _ => leaves.keeps_runTool _ _
    · exact leaves.keeps_bind (leaves.keeps_printLine _) fun _ => leaves.keeps_pure _
  refine leaves.keeps_bind leaves.refl fun machine => ?_
  split
  · exact leaves.keeps_bind (leaves.keeps_printLine _) fun _ => leaves.keeps_pure _
  · exact leaves.keeps_bind (hstubs _) fun _ => leaves.keeps_pure _

/-! ## Every schedule -/

theorem Schedule.orderly_steps {schedule : Schedule σ}
    (inOrder : ∀ thread, Turn.inOrder false (schedule.turnsOf thread) = true) :
    Orderly schedule.steps := by
  intro thread
  rw [schedule.own_steps]
  exact Turn.alternates_of_inOrder (inOrder thread)

theorem Schedule.steps_append (schedule later : Schedule σ) :
    steps (schedule ++ later) = schedule.steps ++ later.steps :=
  List.filterMap_append

/-- While a stage has not been left, the registration it installed is live. -/
theorem Schedule.live_of_endWithin {thread : ThreadId} {earlier : Schedule σ}
    {registration : Registration σ} (h : Turn.EndWithin registration (earlier.turnsOf thread)) :
    Live thread registration earlier.steps := by
  obtain ⟨before, since, hturns, stays⟩ := h
  refine ⟨before.filterMap (Turn.step? thread), since.filterMap (Turn.step? thread), ?_, fun hm => ?_⟩
  · rw [own_steps, hturns, List.filterMap_append, List.filterMap_cons]
    rfl
  · obtain ⟨turn, hturn, hstep⟩ := List.mem_filterMap.1 hm
    have hstays := stays turn hturn
    cases turn with
    | work _ _ | enter _ | plugin _ _ => cases hstep
    | leave => cases hstays

/-- **Every call finds its own value**: whatever the order in which threads install, ask and drop, a
    thread finds the value whose guard it holds and no other.  So it is with the registrations of
    compile calls that run side by side: a plugin runs the processors of the registration that the stage
    installed in which it is run.  The stage of a call is its row of turns, and such a row may stand in
    a schedule. -/
theorem reads_own {α : Type} (steps : List (Step α)) (orderly : Orderly steps) (machine : Machine σ)
    (fresh : machine.registrations = empty) (schedule : Schedule σ)
    (inOrder : ∀ thread, Turn.inOrder false (schedule.turnsOf thread) = true) :
    (∀ earlier, earlier <+: steps → Tells earlier (after earlier)) ∧
    (∀ earlier, earlier <+: schedule → Tells (Schedule.steps earlier) (machine.play earlier).registrations) ∧
    (∀ earlier thread args plugin later,
      schedule = earlier ++ (thread, .plugin args plugin) :: later →
      let view := (machine.play earlier).onThread thread
      ∃ registration, Turn.EndWithin registration (Schedule.turnsOf thread earlier) ∧
        plugin.run args view = Processing.process registration
          (Processing.inputs view.environment args registration) view) ∧
    ∀ {frontend : Frontend σ} (host : PluginHost frontend)
      (leaves : ∀ args, Keeps LeavesRegistrations (host.prepare args))
      (registration : Registration σ) (context : Context σ),
      let turns := host.turns leaves registration context
      (finalState (Stage.runKapt frontend registration context)).machine =
        context.machine.playOwn turns ∧
      (∀ rest, Turn.inOrder false (turns ++ rest) = Turn.inOrder false rest) ∧
      Turn.IsStage registration (Stage.begin context context.machine) turns := by
  have hregistrations : ∀ earlier, (machine.play earlier).registrations = after (Schedule.steps earlier) := by
    intro earlier
    rw [machine.registrations_play, fresh, after]
  have tells : ∀ earlier, earlier <+: schedule →
      Tells (Schedule.steps earlier) (machine.play earlier).registrations := by
    rintro earlier ⟨later, rfl⟩
    have hsteps : Schedule.steps earlier <+: Schedule.steps (earlier ++ later) :=
      ⟨_, (Schedule.steps_append earlier later).symm⟩
    rw [hregistrations]
    exact tells_after ((Schedule.orderly_steps inOrder).before hsteps)
  refine ⟨fun earlier hpre => tells_after (orderly.before hpre), tells, ?_, ?_⟩
  · rintro earlier thread args plugin later rfl view
    have horder := inOrder thread
    rw [Schedule.turnsOf, List.filter_append, List.filter_cons_of_pos (by simp), List.map_append,
      List.map_cons] at horder
    rcases Turn.endWithin_of_inOrder horder with ⟨hfalse, -⟩ | ⟨registration, within⟩
    · cases hfalse
    · have hfound : view.registration? = some registration :=
        (tells earlier ⟨_, rfl⟩).found (Schedule.live_of_endWithin within)
      exact ⟨registration, within, plugin.run_eq args hfound⟩
  · intro frontend host leaves registration context turns
    have hstage : Turn.IsStage registration (Stage.begin context context.machine) turns :=
      PluginHost.isStage_turns registration context
    exact ⟨PluginHost.machine_runKapt registration context, hstage.inOrder, hstage⟩

/-- Three threads that install values of their own; one of them comes back with another value. -/
def threeThreads : List (Step String) :=
  [.install 0 "first", .install 1 "second", .get 0, .drop 1, .get 1, .install 2 "third",
    .install 1 "fourth", .drop 0, .get 1, .get 0]

/-- A registration that can be told from others by its options. -/
def registrationOfCall (call : String) : Registration Unit where
  processors := []
  options := [("call", call)]
  directories := ⟨⟨"/java"⟩, ⟨"/kotlin"⟩, ⟨"/stubs"⟩, ⟨"/data"⟩, ⟨"/classes"⟩⟩
  correctErrorTypes := false

/-- Two calls whose stages overlap, and a third on the thread of the second. -/
def overlappingCalls : Schedule Unit :=
  [(0, .enter (registrationOfCall "first")), (1, .enter (registrationOfCall "second")),
    (0, .plugin {} .annotationProcessing), (1, .plugin {} .annotationProcessing), (1, .leave),
    (1, .enter (registrationOfCall "third")), (0, .leave), (1, .plugin {} .annotationProcessing),
    (1, .leave)]

theorem overlappingCalls_read_own :
    let machine := Machine.start default 5 ()
    Orderly threeThreads ∧ machine.registrations = empty ∧
      (∀ thread, Turn.inOrder false (overlappingCalls.turnsOf thread) = true) ∧
      (∀ earlier, earlier <+: threeThreads → Tells earlier (after earlier)) ∧
      (∀ earlier, earlier <+: overlappingCalls →
        Tells (Schedule.steps earlier) (machine.play earlier).registrations) ∧
      (∀ earlier thread args plugin later,
        overlappingCalls = earlier ++ (thread, .plugin args plugin) :: later →
        let view := (machine.play earlier).onThread thread
        ∃ registration, Turn.EndWithin registration (Schedule.turnsOf thread earlier) ∧
          plugin.run args view = Processing.process registration
            (Processing.inputs view.environment args registration) view) ∧
      ∀ (launcher : Launcher) (registration : Registration Unit) (context : Context Unit),
        let turns := launcher.host.turns launcher.leaves_prepare registration context
        (finalState (Stage.runKapt launcher.frontend registration context)).machine =
          context.machine.playOwn turns ∧
        (∀ rest, Turn.inOrder false (turns ++ rest) = Turn.inOrder false rest) ∧
        Turn.IsStage registration (Stage.begin context context.machine) turns := by
  have orderly : Orderly threeThreads := by
    intro thread
    match thread with
    | 0 | 1 | 2 => rfl
    | other + 3 => rfl
  have inOrder : ∀ thread, Turn.inOrder false (overlappingCalls.turnsOf thread) = true := by
    intro thread
    match thread with
    | 0 | 1 => rfl
    | other + 2 => rfl
  obtain ⟨hsteps, hslot, hplugins, hstages⟩ :=
    reads_own threeThreads orderly (Machine.start default 5 ()) rfl overlappingCalls inOrder
  exact ⟨orderly, rfl, inOrder, hsteps, hslot, hplugins, fun launcher =>
    hstages launcher.host launcher.leaves_prepare⟩

end KotlinHarness
