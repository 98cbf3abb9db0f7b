/-
  The stages that a harness reports.

  A harness keeps the records of the stages that a call came to.  They are put there at the end of
  the call, together with the result, so a call that fails leaves those of an earlier one in place,
  whatever stages it came to itself.

    * `compile_eq_ok`            all that happens in a call with a result
    * `Visited`                  the records tell the stages that a call came to, one record for each
    * `lastStages_compileEach`   what is reported after a sequence of calls
-/
import KotlinHarness.Harness
import KotlinHarness.Proofs.Pipeline.Records
import Mathlib.Data.List.Induction

namespace KotlinHarness

open Pipeline

variable {σ : Type}

/-! ## What the stages of a call leave alone -/

section Stages

variable {R : Context σ → Context σ → Prop}

theorem Context.keeps_onMachine (changes : ∀ context machine, R context { context with machine })
    {α : Type} (action : MachineAction σ α) : Keeps R (Context.onMachine action) := by
  intro context
  rw [Context.onMachine]
  cases action context.machine <;> exact changes context _

theorem Stage.keeps_runKapt (composes : Composes R)
    (changes : ∀ context machine, R context { context with machine }) (frontend : Frontend σ)
    (registration : Registration σ) : Keeps R (runKapt frontend registration) := by
  refine composes.keeps_bind composes.refl fun context => ?_
  refine composes.keeps_bind (Context.keeps_onMachine changes _) fun sources => ?_
  exact composes.keeps_bind (Context.keeps_onMachine changes _) fun _ =>
    Context.keeps_onMachine changes _

/-- The three stages work on the machine; everything else of the context only hooks could edit. -/
theorem Pipeline.everyCall_standard (composes : Composes R)
    (changes : ∀ context machine, R context { context with machine }) (frontend : Frontend σ)
    (registration : Option (Registration σ)) (strategy : JavaStrategy σ) {hooks : List (Hook σ)}
    (quiet : EveryCall R hooks []) :
    EveryCall R hooks (standard frontend registration strategy hooks).stages := by
  refine ⟨quiet.before, fun stage hm => ?_, quiet.after⟩
  simp only [standard, List.mem_cons, List.not_mem_nil, or_false] at hm
  rcases hm with rfl | rfl | rfl
  · cases registration with
    | none => exact composes.keeps_pure _
    | some registration => exact Stage.keeps_runKapt composes changes frontend registration
  · exact composes.keeps_bind composes.refl fun _ => Context.keeps_onMachine changes _
  · exact composes.keeps_bind composes.refl fun _ => Context.keeps_onMachine changes _

end Stages

/-- Every visit of a run that gives an exit code leaves a record. -/
theorem Pipeline.Runs.all_recorded {hooks : List (Hook σ)} {scope : Option ScopeId}
    {stages : List (Stage σ)} {context after : Context σ} {visits : List (Visit σ)} {code : ExitCode}
    (h : Runs hooks scope stages context visits (.ok code after)) :
    visits.map Visit.record? = (visits.filterMap Visit.record?).map some := by
  generalize hresult : EStateM.Result.ok code after = result at h
  induction h with
  | done _ _ => rfl
  | skip idle others ih => exact congrArg _ (ih hresult)
  | goOn needed attended others ih => exact congrArg _ (ih hresult)
  | @stop scope stage rest context after made fate needed attended last =>
    cases fate with
    | skipped => rfl
    | ran code => rfl
    | stoppedBefore cause => cases hresult
    | failed cause => cases hresult
    | stoppedAfter code cause => cases hresult

namespace Harness

/-! ## A call that gives a result -/

/-- The context that the stages of a call start in. -/
def beginning (harness : Harness σ) (machine : Machine σ) (env : Environment)
    (resolution : Resolution) (staged : List StagedSource) : Context σ :=
  ⟨{ machine with environment := env, messages := .ofSink harness.sink }, resolution, staged, []⟩

/-- All that happens in a call with a result: the configuration is settled, the sources are staged, the
    stages are run, and the stream of messages ends. -/
theorem compile_eq_ok {harness again : Harness σ} {machine after : Machine σ}
    {result : CompilationResult} :
    harness.compile machine = (.ok result, again, after) ↔
      ∃ resolution staged env code last text client,
        harness.prepare machine.environment = .ok (resolution, staged) env ∧
        (harness.pipeline env resolution).run (harness.beginning machine env resolution staged) =
          .ok code last ∧
        last.machine.messages.finish last.machine.client = (.ok text, client) ∧
        result = .take last.machine.environment resolution code text ∧
        again = { harness with lastStages := last.records } ∧
        after = { last.machine with client, messages := machine.messages } := by
  rw [compile, call, callOn, bind_eq, Machine.onEnvironment]
  rcases hprepare : harness.prepare machine.environment with ⟨⟨resolution, staged⟩, env⟩ | ⟨cause, env⟩
  · simp only
    rw [bind_eq, runStages]
    simp only [beginning]
    rcases hrun : (harness.pipeline env resolution).run ⟨{ machine with
      environment := env, messages := .ofSink harness.sink }, resolution, staged, []⟩ with
      ⟨code, last⟩ | ⟨cause, last⟩
    · simp only
      rw [bind_eq, endMessages]
      rcases hend : last.machine.messages.finish last.machine.client with ⟨cause | text, client⟩
      · constructor
        · intro h
          cases h
        · rintro ⟨_, _, _, _, _, _, _, ⟨⟩, hsame, hfinish, -⟩
          rw [hrun] at hsame
          cases hsame
          rw [hend] at hfinish
          cases hfinish
      · constructor
        · intro h
          cases h
          exact ⟨resolution, staged, env, code, last, text, client, rfl, hrun, hend, rfl, rfl, rfl⟩
        · rintro ⟨_, _, _, _, _, _, _, ⟨⟩, hsame, hfinish, rfl, rfl, rfl⟩
          rw [hrun] at hsame
          cases hsame
          rw [hend] at hfinish
          cases hfinish
          rfl
    · constructor
      · intro h
        cases h
      · rintro ⟨_, _, _, _, _, _, _, ⟨⟩, hsame, -⟩
        rw [hrun] at hsame
        cases hsame
  · constructor
    · intro h
      cases h
    · rintro ⟨_, _, _, _, _, _, _, ⟨⟩, -⟩

/-- What such a call came to, but for its messages. -/
theorem compile_ok {harness again : Harness σ} {machine after : Machine σ}
    {result : CompilationResult} (h : harness.compile machine = (.ok result, again, after)) :
    ∃ resolution staged env code last,
      harness.prepare machine.environment = .ok (resolution, staged) env ∧
      (harness.pipeline env resolution).run (harness.beginning machine env resolution staged) =
        .ok code last ∧
      result.exitCode = code ∧ again = { harness with lastStages := last.records } := by
  obtain ⟨resolution, staged, env, code, last, text, client, hprepare, hrun, -, rfl, rfl, -⟩ :=
    compile_eq_ok.1 h
  exact ⟨resolution, staged, env, code, last, hprepare, hrun, rfl, rfl⟩

/-- A call that fails leaves the harness as it was. -/
theorem compile_error {harness again : Harness σ} {machine after : Machine σ} {cause : Failure}
    (h : harness.compile machine = (.error cause, again, after)) : again = harness := by
  rw [compile] at h
  split at h <;> cases h
  rfl

/-- The records that the stages of a call leave, whether or not it gives a result in the end. -/
def stagesOf (harness : Harness σ) (machine : Machine σ) : List StageRecord :=
  match harness.prepare machine.environment with
  | .ok (resolution, staged) env =>
    (finalState ((harness.pipeline env resolution).run
      (harness.beginning machine env resolution staged))).records
  | .error _ _ => []

/-- The records tell the stages that a call came to: there is one for each, in order, and it says
    whether the stage was skipped or which code it ended with. -/
def Visited (harness : Harness σ) (machine : Machine σ) (records : List StageRecord) : Prop :=
  ∃ resolution staged env visits code last,
    harness.prepare machine.environment = .ok (resolution, staged) env ∧
    Runs harness.hooks none (harness.pipeline env resolution).stages
      (harness.beginning machine env resolution staged) visits (.ok code last) ∧
    Orderly (harness.pipeline env resolution) (harness.beginning machine env resolution staged) visits
      (.ok code last) ∧
    visits.map Visit.record? = records.map some

/-- A call with a result reports its own stages, and these are all that it came to. -/
theorem compile_visited {harness again : Harness σ} {machine after : Machine σ}
    {result : CompilationResult} (quiet : EveryCall SameRecords harness.hooks [])
    (h : harness.compile machine = (.ok result, again, after)) :
    again.lastStages = harness.stagesOf machine ∧
      harness.Visited machine (harness.stagesOf machine) := by
  obtain ⟨resolution, staged, env, code, last, hprepare, hrun, -, rfl⟩ := compile_ok h
  have keeps : EveryCall SameRecords (harness.pipeline env resolution).hooks
      (harness.pipeline env resolution).stages :=
    everyCall_standard sameRecords_composes (fun _ _ => rfl) harness.frontend _ _ quiet
  obtain ⟨visits, hruns⟩ := run_runs (harness.pipeline env resolution)
    (harness.beginning machine env resolution staged)
  have orderly := hruns.orderly keeps
  have hstages : harness.stagesOf machine = last.records := by
    rw [stagesOf, hprepare]
    simp only [hrun, finalState]
  rw [hrun] at hruns orderly
  have hrecords : last.records = [] ++ visits.filterMap Visit.record? := orderly.records
  rw [hstages]
  refine ⟨rfl, resolution, staged, env, visits, code, last, hprepare, hruns, orderly, ?_⟩
  rw [hruns.all_recorded, hrecords, List.nil_append]

/-! ## Sequences of calls -/

/-- The call gives a result. -/
def Succeeds (harness : Harness σ) (machine : Machine σ) : Prop :=
  ∃ result, (harness.compile machine).1 = .ok result

/-- The harness after calls, each on the machine that it found. -/
def compileEach (harness : Harness σ) : List (Machine σ) → Harness σ
  | [] => harness
  | machine :: rest => compileEach (harness.compile machine).2.1 rest

theorem compileEach_concat (harness : Harness σ) (machines : List (Machine σ)) (machine : Machine σ) :
    harness.compileEach (machines ++ [machine]) =
      ((harness.compileEach machines).compile machine).2.1 := by
  induction machines generalizing harness with
  | nil => rfl
  | cons first rest ih => exact ih (harness.compile first).2.1

/-- Calls change nothing of a harness but what it reports. -/
theorem compileEach_rest (harness : Harness σ) (machines : List (Machine σ)) :
    ∃ records, harness.compileEach machines = { harness with lastStages := records } := by
  induction machines generalizing harness with
  | nil => exact ⟨harness.lastStages, rfl⟩
  | cons machine rest ih =>
    obtain ⟨records, hrest⟩ := ih (harness.compile machine).2.1
    refine ⟨records, ?_⟩
    rw [compileEach, hrest]
    rcases h : harness.compile machine with ⟨cause | result, again, after⟩
    · rw [compile_error h]
    · obtain ⟨_, _, _, _, last, -, -, -, hagain⟩ := compile_ok h
      rw [hagain]

/-- A harness that reports something else gives the same answer, and keeps that if it fails. -/
theorem compile_reporting (harness : Harness σ) (records : List StageRecord) (machine : Machine σ) :
    { harness with lastStages := records }.compile machine =
      match harness.compile machine with
      | (.ok result, again, after) => (.ok result, again, after)
      | (.error cause, _, after) => (.error cause, { harness with lastStages := records }, after) := by
  have hcall : { harness with lastStages := records }.call machine = harness.call machine := rfl
  rw [compile, compile, hcall]
  cases harness.call machine <;> rfl

/-- One more call: with a result it reports its own stages, without one nothing changes. -/
theorem lastStages_concat (harness : Harness σ) (quiet : EveryCall SameRecords harness.hooks [])
    (machines : List (Machine σ)) (machine : Machine σ) :
    (harness.Succeeds machine ∧
      (harness.compileEach (machines ++ [machine])).lastStages = harness.stagesOf machine ∧
      harness.Visited machine (harness.stagesOf machine)) ∨
    (¬ harness.Succeeds machine ∧
      (harness.compileEach (machines ++ [machine])).lastStages =
        (harness.compileEach machines).lastStages) := by
  obtain ⟨records, hrest⟩ := harness.compileEach_rest machines
  rw [compileEach_concat, hrest, compile_reporting, Succeeds]
  rcases h : harness.compile machine with ⟨cause | result, again, after⟩
  · refine .inr ⟨?_, rfl⟩
    rintro ⟨result, hresult⟩
    cases hresult
  · exact .inl ⟨⟨result, rfl⟩, compile_visited quiet h⟩

/-- **What is reported** after a sequence of calls: the stages that the last call with a result came
    to, all of them, in order.  Calls without a result that follow it change nothing, and without any
    result it is what was reported at first. -/
theorem lastStages_compileEach (harness : Harness σ) (quiet : EveryCall SameRecords harness.hooks [])
    (machines : List (Machine σ)) :
    (∃ earlier machine later, machines = earlier ++ machine :: later ∧
      harness.Succeeds machine ∧ (∀ other ∈ later, ¬ harness.Succeeds other) ∧
      (harness.compileEach machines).lastStages = harness.stagesOf machine ∧
      harness.Visited machine (harness.stagesOf machine)) ∨
    ((∀ other ∈ machines, ¬ harness.Succeeds other) ∧
      (harness.compileEach machines).lastStages = harness.lastStages) := by
  -- The last call comes first, so the induction takes calls off the end.
  induction machines using List.reverseRecOn with
  | nil => exact .inr ⟨fun _ hm => absurd hm List.not_mem_nil, rfl⟩
  | append_singleton machines machine ih =>
    rcases harness.lastStages_concat quiet machines machine with
      ⟨succeeds, hstages, visited⟩ | ⟨fails, hstages⟩
    · exact .inl ⟨machines, machine, [], rfl, succeeds, fun _ hm => absurd hm List.not_mem_nil,
        hstages, visited⟩
    · have hfails : ∀ {later : List (Machine σ)}, (∀ other ∈ later, ¬ harness.Succeeds other) →
          ∀ other ∈ later ++ [machine], ¬ harness.Succeeds other := by
        intro later h other hm
        rcases List.mem_append.1 hm with hm | hm
        · exact h other hm
        · exact List.mem_singleton.1 hm ▸ fails
      rw [hstages]
      rcases ih with ⟨earlier, last, later, rfl, succeeds, hlater, hlast, visited⟩ | ⟨hall, hfirst⟩
      · refine .inl ⟨earlier, last, later ++ [machine], ?_, succeeds, hfails hlater, hlast, visited⟩
        rw [List.append_assoc, List.cons_append]
      · exact .inr ⟨hfails hall, hfirst⟩

/-- A hook that counts the calls of the Kotlin stage and refuses the second one after it ran. -/
def strictHook : Hook Nat where
  name := "strict"
  after stage _ context :=
    let machine := { context.machine with client := context.machine.client + 1 }
    if stage = "kotlin" ∧ context.machine.client = 1 then .error (.raised "refused") context
    else .ok () { context with machine }

/-- A harness for one class, with a front end that has nothing to complain about. -/
def strictHarness : Harness Nat :=
  { ofConfig { workingDir := some ⟨"/w"⟩, sources := [⟨⟨"A.kt"⟩, "class A", some .kotlin⟩] }
      .discarding with
    frontend := ⟨"idle", fun _ => pure .ok⟩
    hooks := [strictHook] }

/-- The machine of the first call. -/
def freshMachine : Machine Nat := .start default 5 0

/-- The machine that the first call leaves. -/
def usedMachine : Machine Nat := (strictHarness.compile freshMachine).2.2

theorem strictHook_quiet : EveryCall SameRecords [strictHook] [] := by
  constructor
  · intro hook hm stage context
    rw [List.mem_singleton.1 hm]
    rfl
  · exact fun _ hm => absurd hm List.not_mem_nil
  · intro hook hm stage code context
    rw [List.mem_singleton.1 hm]
    simp only [strictHook]
    split <;> rfl

theorem strictHarness_reported :
    EveryCall SameRecords strictHarness.hooks [] ∧
      ((∃ earlier machine later, [freshMachine, usedMachine] = earlier ++ machine :: later ∧
        strictHarness.Succeeds machine ∧ (∀ other ∈ later, ¬ strictHarness.Succeeds other) ∧
        (strictHarness.compileEach [freshMachine, usedMachine]).lastStages =
          strictHarness.stagesOf machine ∧
        strictHarness.Visited machine (strictHarness.stagesOf machine)) ∨
      ((∀ other ∈ [freshMachine, usedMachine], ¬ strictHarness.Succeeds other) ∧
        (strictHarness.compileEach [freshMachine, usedMachine]).lastStages =
          strictHarness.lastStages)) :=
  ⟨strictHook_quiet,
    lastStages_compileEach strictHarness strictHook_quiet [freshMachine, usedMachine]⟩

/-- The second call fails after the Kotlin stage, and a Java stage is reported that it never came
    to. -/
theorem reported_after_failure :
    ¬ strictHarness.Succeeds usedMachine ∧
      strictHarness.stagesOf usedMachine = [⟨"kapt", .skipped⟩, ⟨"kotlin", .ran .ok⟩] ∧
      (strictHarness.compileEach [freshMachine, usedMachine]).lastStages =
        [⟨"kapt", .skipped⟩, ⟨"kotlin", .ran .ok⟩, ⟨"java", .skipped⟩] := by
  have evaluated : (strictHarness.compile usedMachine).1.isOk = false ∧
      strictHarness.stagesOf usedMachine = [⟨"kapt", .skipped⟩, ⟨"kotlin", .ran .ok⟩] ∧
      (strictHarness.compileEach [freshMachine, usedMachine]).lastStages =
        [⟨"kapt", .skipped⟩, ⟨"kotlin", .ran .ok⟩, ⟨"java", .skipped⟩] := by decide +kernel
  obtain ⟨fails, stages⟩ := evaluated
  refine ⟨?_, stages⟩
  rintro ⟨result, hresult⟩
  rw [hresult] at fails
  cases fails

end Harness

end KotlinHarness
