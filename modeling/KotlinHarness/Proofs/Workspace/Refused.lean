/-
  Configurations that are refused.

  Resolution refuses three things, all of them before anything is staged or compiled.  A compile
  call ends in one of these bare configuration errors only there: whatever goes wrong later is told
  together with what was being done (`Tells`).  So a call that was refused did what resolution did
  and nothing else (`compile_refused_iff`).

  What resolution does is to settle the workspace root first.  A root that is configured is used as
  it is; without one a new temporary directory is made, which stays, and the checks come after it.

    * `Refused`            what a refused call leaves behind
    * `compile_refused`    every refused call leaves that behind, and tells nothing of the tools
-/
import KotlinHarness.Harness
import KotlinHarness.Proofs.Workspace.Temporary

namespace KotlinHarness

/-! ## Failures that are told with what was being done -/

section Tells

variable {σ α β ι : Type}

/-- Whatever the action fails with is told together with what was being done. -/
def Tells (action : EStateM Failure σ α) : Prop :=
  ∀ state cause after, action state = .error cause after →
    ∃ undertaking inner, cause = .during undertaking inner

theorem tells_pure (value : α) : Tells (pure value : EStateM Failure σ α) := by
  intro state cause after h
  cases h

theorem Tells.bind {action : EStateM Failure σ α} {next : α → EStateM Failure σ β}
    (h : Tells action) (hnext : ∀ value, Tells (next value)) : Tells (action >>= next) := by
  intro state cause after herror
  rcases of_bind_error herror with hfirst | ⟨value, middle, -, hsecond⟩
  · exact h _ _ _ hfirst
  · exact hnext value _ _ _ hsecond

theorem tells_fileDuring (undertaking : Undertaking) (action : FileAction α) :
    Tells (action.during undertaking) := by
  intro env cause after h
  rw [FileAction.during] at h
  split at h
  · cases h
  · cases h
    exact ⟨undertaking, _, rfl⟩

theorem tells_environmentDuring (undertaking : Undertaking) (action : EnvironmentAction α) :
    Tells (action.during undertaking) := by
  intro env cause after h
  rw [EnvironmentAction.during] at h
  split at h
  · cases h
  · cases h
    exact ⟨undertaking, _, rfl⟩

theorem tells_contextDuring (undertaking : Undertaking) (action : ContextAction σ α) :
    Tells (Context.during undertaking action) := by
  intro context cause after h
  rw [Context.during] at h
  split at h
  · cases h
  · cases h
    exact ⟨undertaking, _, rfl⟩

end Tells

theorem Workspace.tells_createAll (directories : List Path) : Tells (createAll directories) := by
  induction directories with
  | nil => exact tells_pure ()
  | cons directory rest ih => exact (tells_fileDuring _ _).bind fun _ => ih

theorem SourceUnit.tells_stageAll (root : Path) (units : List SourceUnit) :
    Tells (stageAll root units) := by
  induction units with
  | nil => exact tells_pure []
  | cons unit rest ih =>
    have hstage : Tells (unit.stage root) :=
      (tells_environmentDuring _ _).bind fun _ => tells_pure _
    exact hstage.bind fun _ => ih.bind fun _ => tells_pure _

namespace Pipeline

variable {σ : Type}

theorem tells_callBefore (stage : String) (hooks : List (Hook σ)) :
    Tells (callBefore stage hooks) := by
  induction hooks with
  | nil => exact tells_pure ()
  | cons hook rest ih => exact (tells_contextDuring _ _).bind fun _ => ih

theorem tells_callAfter (stage : String) (code : ExitCode) (hooks : List (Hook σ)) :
    Tells (callAfter stage code hooks) := by
  induction hooks with
  | nil => exact tells_pure ()
  | cons hook rest ih => exact (tells_contextDuring _ _).bind fun _ => ih

theorem tells_runStage (hooks : List (Hook σ)) (stage : Stage σ) : Tells (runStage hooks stage) := by
  refine (tells_callBefore _ hooks).bind fun _ => (tells_contextDuring _ _).bind fun code => ?_
  have hnote : Tells (modify (·.noted stage.name (.ran code)) : ContextAction σ Unit) := by
    intro context cause after h
    cases h
  exact hnote.bind fun _ => (tells_callAfter _ code hooks).bind fun _ => tells_pure code

theorem tells_runFrom (hooks : List (Hook σ)) (scope : Option ScopeId) (stages : List (Stage σ)) :
    Tells (runFrom hooks scope stages) := by
  induction stages generalizing scope with
  | nil =>
    intro context cause after h
    cases h
  | cons stage rest ih =>
    intro context cause after h
    rw [runFrom] at h
    split at h
    · simp only at h
      split at h
      · next hstage =>
        cases h
        exact tells_runStage hooks stage _ _ _ hstage
      · split at h
        · exact ih _ _ _ _ h
        · cases h
    · exact ih _ _ _ _ h

end Pipeline

/-! ## A call that is refused did nothing but resolve -/

namespace Harness

variable {σ : Type} {harness again : Harness σ} {machine after : Machine σ} {error : ConfigError}

theorem tells_endMessages : Tells (endMessages : MachineAction σ String) := by
  intro machine cause after h
  rw [endMessages] at h
  split at h
  · cases h
  · cases h
    exact ⟨.endingMessages, _, rfl⟩

theorem tells_runStages (harness : Harness σ) (resolution : Resolution)
    (staged : List StagedSource) : Tells (harness.runStages resolution staged) := by
  intro machine cause after h
  rw [runStages] at h
  split at h
  · cases h
  · next hrun =>
    cases h
    exact Pipeline.tells_runFrom _ _ _ _ _ _ hrun

/-- A bare configuration error of the preparation is one of the resolution. -/
theorem prepare_config (harness : Harness σ) (env last : Environment) (error : ConfigError) :
    harness.prepare env = .error (.config error) last ↔
      Resolution.resolve harness.config harness.host harness.needsKapt env = .error error last := by
  rw [prepare, bind_eq, resolve]
  rcases hresolve : Resolution.resolve harness.config harness.host harness.needsKapt env with
    ⟨resolution, middle⟩ | ⟨cause, middle⟩
  · simp only [reduceCtorEq, iff_false]
    intro h
    have tells : Tells (do
        resolution.workspace.create
        let staged ← SourceUnit.stageAll resolution.workspace.sources resolution.config.sources
        pure (resolution, staged) : EnvironmentAction (Resolution × List StagedSource)) :=
      (Workspace.tells_createAll _).bind fun _ =>
        (SourceUnit.tells_stageAll _ _).bind fun _ => tells_pure _
    obtain ⟨_, _, hcause⟩ := tells _ _ _ h
    cases hcause
  · simp

theorem callOn_config (harness : Harness σ) (machine after : Machine σ) (error : ConfigError) :
    harness.callOn machine = .error (.config error) after ↔
      ∃ env, Resolution.resolve harness.config harness.host harness.needsKapt machine.environment
          = .error error env ∧ after = { machine with environment := env } := by
  have hprepared := harness.prepare_config machine.environment
  rw [callOn, bind_eq, Machine.onEnvironment]
  rcases hprepare : harness.prepare machine.environment with ⟨⟨resolution, staged⟩, env⟩ | ⟨cause, env⟩
  · -- What goes wrong after the preparation is told with what was being done.
    simp only
    constructor
    · intro h
      obtain h | ⟨_, _, -, h⟩ := of_bind_error h
      · obtain ⟨_, _, hcause⟩ := harness.tells_runStages resolution staged _ _ _ h
        cases hcause
      · obtain h | ⟨_, _, -, h⟩ := of_bind_error h
        · obtain ⟨_, _, hcause⟩ := tells_endMessages _ _ _ h
          cases hcause
        · cases h
    · rintro ⟨env, hresolve, -⟩
      rw [(hprepared _ _).2 hresolve] at hprepare
      cases hprepare
  · simp only
    constructor
    · intro h
      cases h
      exact ⟨env, (hprepared _ _).1 hprepare, rfl⟩
    · rintro ⟨last, hresolve, rfl⟩
      rw [(hprepared _ _).2 hresolve] at hprepare
      cases hprepare
      rfl

/-- A call ends in a bare configuration error exactly when resolution does, and nothing but
    resolution was done then. -/
theorem compile_refused_iff :
    harness.compile machine = (.error (.config error), again, after) ↔
      ∃ env, Resolution.resolve harness.config harness.host harness.needsKapt machine.environment
          = .error error env ∧
        again = harness ∧ after = { machine with environment := env } := by
  have hcalled := harness.callOn_config { machine with messages := .ofSink harness.sink }
  rw [compile, call]
  rcases hcall : harness.callOn { machine with messages := .ofSink harness.sink } with
    ⟨⟨result, records⟩, last⟩ | ⟨cause, last⟩
  · simp only
    constructor
    · intro h
      cases h
    · rintro ⟨env, hresolve, -⟩
      rw [(hcalled _ _).2 ⟨env, hresolve, rfl⟩] at hcall
      cases hcall
  · simp only
    constructor
    · intro h
      cases h
      obtain ⟨env, hresolve, rfl⟩ := (hcalled _ _).1 hcall
      exact ⟨env, hresolve, rfl, rfl⟩
    · rintro ⟨env, hresolve, rfl, rfl⟩
      rw [(hcalled _ _).2 ⟨env, hresolve, rfl⟩] at hcall
      cases hcall
      rfl

end Harness

/-! ## What is refused -/

/-- The errors that resolution refuses a configuration with. -/
def ConfigError.isRefusal : ConfigError → Bool
  | missingJdkHome _ | missingToolsJar _ | missingGeneratedDir _ _ => true
  | _ => false

theorem Resolution.root_error {config : Compilation} {env last : Environment} {error : ConfigError}
    (h : root config env = .error error last) : error.isRefusal = false := by
  rcases hdirectory : config.workingDir with - | directory
  · simp only [root, hdirectory] at h
    obtain ⟨cause, count, rfl, -⟩ := Environment.makeTemporary_error h
    rfl
  · simp only [root, hdirectory] at h
    cases h

/-- Only the root is made before the checks. -/
theorem Resolution.resolve_refused {config : Compilation} {host : Host} {needsKapt : Bool}
    {env last : Environment} {error : ConfigError} (refusal : error.isRefusal = true)
    (h : resolve config host needsKapt env = .error error last) :
    ∃ path, root config env = .ok path last := by
  rw [resolve] at h
  rcases of_bind_error h with hroot | ⟨path, middle, hroot, h⟩
  · rw [root_error hroot] at refusal
    cases refusal
  · rw [get_bind] at h
    rcases hinside : inWorkspace middle config host needsKapt ⟨path⟩ with cause | settled
    · rw [hinside] at h
      cases h
      exact ⟨path, hroot⟩
    · rw [hinside] at h
      cases h

namespace Harness

variable {σ : Type}

/-- What a refused call leaves behind. -/
structure Refused (harness : Harness σ) (machine : Machine σ) (error : ConfigError)
    (again : Harness σ) (after : Machine σ) : Prop where
  /-- No stage is on record that was not before. -/
  stages : again = harness
  /-- Nothing was printed, called, set or handed over: only files may be different. -/
  rest : after = { machine with environment := after.environment }
  /-- With a working directory no file is, either. -/
  configured : harness.config.workingDir.isSome = true → after.environment = machine.environment
  /-- Without one there is the temporary root, new and empty, and nothing else. -/
  temporary : harness.config.workingDir = none →
    Environment.MadeTemporary machine.environment after.environment
  /-- Front end, Java compiler, hooks, sink and processors had no part in it: any others in their
      place leave the same machine behind. -/
  tools : ∀ other : Harness σ, other.config = harness.config → other.host = harness.host →
    other.needsKapt = harness.needsKapt →
    other.compile machine = (.error (.config error), other, after)

/-- **Refusal**: a call that fails with one of the errors that resolution refuses a configuration
    with did nothing, but for making the temporary root where no working directory is given. -/
theorem compile_refused {harness again : Harness σ} {machine after : Machine σ}
    {error : ConfigError} (refusal : error.isRefusal = true)
    (h : harness.compile machine = (.error (.config error), again, after)) :
    Refused harness machine error again after := by
  obtain ⟨env, hresolve, hagain, hafter⟩ := compile_refused_iff.1 h
  obtain ⟨path, hroot⟩ := Resolution.resolve_refused refusal hresolve
  have henvironment : after.environment = env := by rw [hafter]
  refine ⟨hagain, by rw [henvironment, hafter], ?_, ?_, ?_⟩
  · intro hsome
    obtain ⟨directory, hdirectory⟩ := Option.isSome_iff_exists.1 hsome
    rw [Resolution.root, hdirectory] at hroot
    cases hroot
    exact henvironment
  · intro hnone
    rw [Resolution.root, hnone] at hroot
    rw [henvironment]
    exact Environment.makeTemporary_ok hroot
  · intro other hconfig hhost hkapt
    rw [← hconfig, ← hhost, ← hkapt] at hresolve
    exact compile_refused_iff.2 ⟨env, hresolve, rfl, hafter⟩

/-- A harness whose configuration names a JDK that is not there. -/
def withoutJdk (workingDir : Option Path) : Harness Unit :=
  .ofConfig { workingDir, jdkHome := some ⟨"/no-jdk"⟩ } .discarding

/-- An environment with nothing but a directory for temporary files. -/
def emptyEnvironment : Environment :=
  { (default : Environment) with files := FileTree.empty.insert ["tmp"] .directory }

/-- No JDK is there, which is told once a directory for temporary files was made. -/
theorem withoutJdk_fails :
    ∃ again after,
      (withoutJdk none).compile (Machine.start emptyEnvironment 5 ()) =
        (.error (.config (.missingJdkHome ⟨"/no-jdk"⟩)), again, after) ∧
      after.environment.isDirectory ⟨"/tmp/kompile-000000"⟩ = true := by
  have fails : failsWith (fun cause => decide (cause = .config (.missingJdkHome ⟨"/no-jdk"⟩)))
        ((withoutJdk none).compile (Machine.start emptyEnvironment 5 ())).1 = true ∧
      ((withoutJdk none).compile (Machine.start emptyEnvironment 5 ())).2.2.environment.isDirectory
        ⟨"/tmp/kompile-000000"⟩ = true := by decide +kernel
  rcases hcompile : (withoutJdk none).compile (Machine.start emptyEnvironment 5 ()) with
    ⟨answer, again, after⟩
  rw [hcompile] at fails
  obtain ⟨cause, rfl, hcause⟩ := of_failsWith fails.1
  obtain rfl := of_decide_eq_true hcause
  exact ⟨again, after, rfl, fails.2⟩

theorem withoutJdk_refused :
    ConfigError.isRefusal (.missingJdkHome ⟨"/no-jdk"⟩) = true ∧
      ∃ again after,
        (withoutJdk none).compile (Machine.start emptyEnvironment 5 ()) =
          (.error (.config (.missingJdkHome ⟨"/no-jdk"⟩)), again, after) ∧
        Refused (withoutJdk none) (Machine.start emptyEnvironment 5 ())
          (.missingJdkHome ⟨"/no-jdk"⟩) again after := by
  obtain ⟨again, after, hcompile, -⟩ := withoutJdk_fails
  exact ⟨rfl, again, after, hcompile, compile_refused rfl hcompile⟩

/-- Without a working directory a refused call leaves its temporary root behind. -/
theorem root_left_behind :
    ∃ error again after,
      (withoutJdk none).compile (Machine.start emptyEnvironment 5 ()) =
        (.error (.config error), again, after) ∧ error.isRefusal = true ∧
      emptyEnvironment.isDirectory ⟨"/tmp/kompile-000000"⟩ = false ∧
      after.environment.isDirectory ⟨"/tmp/kompile-000000"⟩ = true := by
  obtain ⟨again, after, hcompile, hmade⟩ := withoutJdk_fails
  exact ⟨.missingJdkHome ⟨"/no-jdk"⟩, again, after, hcompile, rfl, by decide +kernel, hmade⟩

end Harness

end KotlinHarness
