/-
  When the compilers of a call are called.

  A stage decides on the files that it finds whether it is needed, hooks go between, and only then it
  lists its sources.  As long as hooks leave the sources alone, what is listed is what the decision
  was made on, so no compiler is called for nothing.

  That a compiler is not called in some way is said by another one that refuses to be called so: in
  its place the run is the same.  That it is called is said by a refusal that the run does not survive.

    * `runFrom_congr`      stages that do the same wherever they are needed make the same run
    * `Runs.inCourse`      which stages a run comes to, and which of them run
    * `compilers_called`   how the compilers of a call with a result are called
-/
import KotlinHarness.Proofs.Pipeline.HandedSources
import KotlinHarness.Proofs.Pipeline.Reported

namespace KotlinHarness

open Pipeline

variable {σ : Type}

/-! ## A stage in the place of another -/

/-- Another stage that does the same wherever this one is needed, whatever comes in between. -/
structure Stage.StandsFor (R : Context σ → Context σ → Prop) (other stage : Stage σ) : Prop where
  name : other.name = stage.name
  isNeeded : other.isNeeded = stage.isNeeded
  usesFrontend : other.usesFrontend = stage.usesFrontend
  run : ∀ context start, stage.isNeeded context = true → R context start →
    other.run start = stage.run start

namespace Pipeline

section Congruence

variable {R : Context σ → Context σ → Prop} {hooks : List (Hook σ)}

theorem EveryCall.keeps_callBefore {stages : List (Stage σ)} (composes : Composes R)
    (keeps : EveryCall R hooks stages) (stage : String) : Keeps R (callBefore stage hooks) := by
  have hbefore := keeps.before
  clear keeps
  induction hooks with
  | nil => exact composes.keeps_pure ()
  | cons hook rest ih =>
    exact composes.keeps_bind (keeps_during (hbefore hook List.mem_cons_self stage) _) fun _ =>
      ih fun other hm => hbefore other (List.mem_cons_of_mem _ hm)

theorem runStage_congr (composes : Composes R) {stages : List (Stage σ)}
    (keeps : EveryCall R hooks stages) {other stage : Stage σ} {context : Context σ}
    (name : other.name = stage.name)
    (run : ∀ start, R context start → other.run start = stage.run start) :
    runStage hooks other context = runStage hooks stage context := by
  rw [runStage, runStage, name, bind_eq, bind_eq]
  rcases hbefore : callBefore stage.name hooks context with ⟨_, start⟩ | ⟨cause, start⟩
  · have hstart : R context start := (keeps.keeps_callBefore composes stage.name).of_ok hbefore
    simp only
    rw [bind_eq, bind_eq, Context.during, Context.during, run start hstart]
  · rfl

/-- A run is the same with stages that do the same wherever they are needed. -/
theorem runFrom_congr (composes : Composes R)
    (inScope : ∀ stage scope context, R context (scopeFor stage scope context).2)
    {others stages : List (Stage σ)} (keeps : EveryCall R hooks [])
    (h : List.Forall₂ (Stage.StandsFor R) others stages) (scope : Option ScopeId)
    (context : Context σ) :
    runFrom hooks scope others context = runFrom hooks scope stages context := by
  induction h generalizing scope context with
  | nil => rfl
  | @cons other stage others stages first _ ih =>
    have hscope : scopeFor other scope context = scopeFor stage scope context := by
      rw [scopeFor, scopeFor, first.usesFrontend]
    rw [runFrom, runFrom, first.isNeeded, first.name, hscope]
    split
    · next needed =>
      simp only
      rw [runStage_congr composes keeps first.name fun start hstart =>
        first.run context start needed
          (composes.trans (inScope stage scope context) hstart)]
      rcases runStage hooks stage (scopeFor stage scope context).2 with
        ⟨code, after⟩ | ⟨cause, after⟩
      · simp only [ih]
      · rfl
    · exact ih scope _

end Congruence

/-! ## Visits of a run -/

section Visits

variable {R : Context σ → Context σ → Prop} {hooks : List (Hook σ)} {scope : Option ScopeId}
  {stages : List (Stage σ)} {context : Context σ} {visits : List (Visit σ)}
  {result : EStateM.Result Failure (Context σ) ExitCode}

/-- A run comes to its stages one after the other, as long as they are skipped or end well, and skips
    those that are not needed when it comes to them. -/
def InCourse : List (Stage σ) → List (Visit σ) → Prop
  | [], visits => visits = []
  | stage :: rest, visits =>
    ∃ visit others, visits = visit :: others ∧ visit.stage = stage ∧
      (visit.fate = .skipped ↔ stage.isNeeded visit.arrival = false) ∧
      if visit.fate.goesOn then InCourse rest others else others = []

theorem Runs.inCourse (h : Runs hooks scope stages context visits result) :
    InCourse stages visits := by
  induction h with
  | done scope context => rfl
  | skip idle others ih => exact ⟨_, _, rfl, rfl, ⟨fun _ => idle, fun _ => rfl⟩, ih⟩
  | goOn needed attended others ih =>
    refine ⟨_, _, rfl, rfl, ⟨fun h => ?_, fun h => ?_⟩, ih⟩
    · cases h
    · rw [needed] at h
      cases h
  | stop needed attended last =>
    refine ⟨_, _, rfl, rfl, ⟨fun h => absurd h attended.ne_skipped, fun h => ?_⟩, ?_⟩
    · rw [needed] at h
      cases h
    · rw [if_neg (by rw [last]; exact Bool.false_ne_true)]

/-- Every visit is of one of the stages, which was skipped just when it was not needed. -/
theorem InCourse.of_mem (h : InCourse stages visits) :
    ∀ visit ∈ visits, visit.stage ∈ stages ∧
      (visit.fate = .skipped ↔ visit.stage.isNeeded visit.arrival = false) := by
  induction stages generalizing visits with
  | nil =>
    rw [show visits = [] from h]
    exact fun _ hm => absurd hm List.not_mem_nil
  | cons stage rest ih =>
    obtain ⟨first, others, rfl, rfl, skipped, hothers⟩ := h
    refine List.forall_mem_cons.2 ⟨⟨List.mem_cons_self, skipped⟩, ?_⟩
    split at hothers
    · exact fun visit hm =>
        (ih hothers visit hm).imp_left (List.mem_cons_of_mem first.stage)
    · rw [hothers]
      exact fun _ hm => absurd hm List.not_mem_nil

/-- The context in which a run comes to a stage is related to the first one. -/
theorem Runs.arrival (composes : Composes R)
    (noted : ∀ context stage outcome, R context (context.noted stage outcome))
    (inScope : ∀ stage scope context, R context (scopeFor stage scope context).2)
    (keeps : EveryCall R hooks stages) (h : Runs hooks scope stages context visits result) :
    ∀ visit ∈ visits, R context visit.arrival := by
  induction h with
  | done scope context => exact fun _ hm => absurd hm List.not_mem_nil
  | @skip scope stage rest context visits result idle others ih =>
    refine List.forall_mem_cons.2 ⟨composes.refl context, fun visit hm => ?_⟩
    exact composes.trans (noted context stage.name .skipped) (ih keeps.tail visit hm)
  | @goOn scope stage rest context after made visits result needed attended others ih =>
    refine List.forall_mem_cons.2 ⟨composes.refl context, fun visit hm => ?_⟩
    have hafter := (attended.keeps composes noted keeps List.mem_cons_self).1
    exact composes.trans (inScope stage scope context)
      (composes.trans hafter (ih keeps.tail visit hm))
  | @stop scope stage rest context after made fate needed attended last =>
    intro visit hm
    rw [List.mem_singleton.1 hm]
    exact composes.refl context

/-- In a run with an exit code every stage that was not skipped ended with one. -/
theorem Runs.body_ok {code : ExitCode} {after : Context σ}
    (h : Runs hooks scope stages context visits (.ok code after)) :
    ∀ visit ∈ visits, visit.fate ≠ .skipped →
      ∃ start code ended, visit.stage.run start = .ok code ended := by
  -- A visit that ended with a code has called the stage in between.
  have ended : ∀ {stage : Stage σ} {context after : Context σ} {made : List (Made σ)}
      {code : ExitCode}, Attends hooks stage context made (.ran code) after →
      ∃ start code ended, stage.run start = .ok code ended := by
    intro stage context after made code attended
    cases attended with
    | ran before body afterwards => exact ⟨_, _, _, during_eq_ok body⟩
  generalize hresult : EStateM.Result.ok code after = result at h
  induction h with
  | done scope context => exact fun _ hm => absurd hm List.not_mem_nil
  | skip idle others ih =>
    exact List.forall_mem_cons.2 ⟨fun h => absurd rfl h, ih hresult⟩
  | goOn needed attended others ih =>
    exact List.forall_mem_cons.2 ⟨fun _ => ended attended, ih hresult⟩
  | @stop scope stage rest context after made fate needed attended last =>
    intro visit hm _
    rw [List.mem_singleton.1 hm]
    cases fate with
    | skipped => exact absurd rfl attended.ne_skipped
    | ran code => exact ended attended
    | stoppedBefore cause => cases hresult
    | failed cause => cases hresult
    | stoppedAfter code cause => cases hresult

end Visits

end Pipeline

/-! ## The stages and their compilers -/

namespace Stage

variable {frontend other : Frontend σ} {registration : Registration σ}

theorem kaptSources_ne_nil {workspace : Workspace} {staged sources : List Path}
    {env after : Environment} (h : kaptSources workspace staged env = .ok sources after) :
    sources ≠ [] := by
  rw [kaptSources] at h
  split at h
  · obtain ⟨path, middle, -, h⟩ := of_bind_ok h
    cases h
    exact List.cons_ne_nil path []
  · next hfull =>
    cases h
    exact fun hnone => hfull (List.isEmpty_iff.2 hnone)

/-- Annotation processing calls the front end for stubs of at least one source, and not otherwise. -/
theorem runKapt_congr
    (h : ∀ args, args.mode = .stubs → args.sources ≠ [] → other.exec args = frontend.exec args)
    (context : Context σ) :
    runKapt other registration context = runKapt frontend registration context := by
  rw [runKapt, runKapt, get_bind, get_bind, bind_eq, bind_eq]
  rcases hsources : Context.onMachine (Machine.onEnvironment (kaptSources
      context.resolution.workspace (StagedSource.ofLanguage .kotlin context.staged))) context with
    ⟨sources, first⟩ | ⟨cause, first⟩
  · obtain ⟨henv, -, -⟩ := PluginHost.onEnvironment_ok hsources
    simp only [h (kaptArguments registration context sources) rfl (kaptSources_ne_nil henv)]
  · rfl

/-- Annotation processing does not end with a code unless the front end was called for stubs and did
    so. -/
theorem exec_of_runKapt {context ended : Context σ} {code : ExitCode}
    (h : runKapt frontend registration context = .ok code ended) :
    ∃ args machine after, args.mode = .stubs ∧ frontend.exec args machine = .ok code after := by
  rw [runKapt, get_bind] at h
  obtain ⟨sources, first, -, h⟩ := of_bind_ok h
  obtain ⟨_, second, -, h⟩ := of_bind_ok h
  obtain ⟨hwith, -, -⟩ := PluginHost.onMachine_ok h
  obtain ⟨last, hexec, -⟩ := PluginHost.withRegistration_ok hwith
  exact ⟨kaptArguments registration context sources, _, last, rfl, hexec⟩

/-- Where there are sources of a language, they are still there when hooks leave them alone. -/
theorem sources_ne_nil {context start : Context σ} {language : Language}
    (needed : (!(context.sourcesOf language).isEmpty) = true) (leaves : LeavesSources context start) :
    start.sourcesOf language ≠ [] := by
  have hsame : start.sourcesOf language = context.sourcesOf language := by
    rw [Context.sourcesOf, Context.sourcesOf, leaves.staged, leaves.generated]
  rw [hsame]
  simpa using needed

end Stage

/-! ## The staging of a call -/

/-- The settled configuration and the staged sources stayed as they were. -/
structure SameStaging (before after : Context σ) : Prop where
  resolution : after.resolution = before.resolution
  staged : after.staged = before.staged

theorem sameStaging_composes : Composes (@SameStaging σ) :=
  ⟨fun _ => ⟨rfl, rfl⟩, fun h h' =>
    ⟨h'.resolution.trans h.resolution, h'.staged.trans h.staged⟩⟩

theorem LeavesSources.sameStaging {before after : Context σ} (h : LeavesSources before after) :
    SameStaging before after :=
  ⟨h.resolution, h.staged⟩

/-- There is something to compile: a unit of the configuration, or a file below the directory for
    generated sources. -/
def Resolution.HasSources (resolution : Resolution) (env : Environment) (language : Language) :
    Prop :=
  (∃ unit ∈ resolution.config.sources, unit.language = some language) ∨
    findSources env (resolution.filer.directory language) language ≠ []

theorem sourcesOf_ne_nil_iff {resolution : Resolution} {context : Context σ} {language : Language}
    (resolved : context.resolution = resolution)
    (units : StagedSource.ofLanguage language context.staged = resolution.unitPaths language) :
    context.sourcesOf language ≠ [] ↔
      resolution.HasSources context.machine.environment language := by
  have hunits : resolution.unitPaths language ≠ [] ↔
      ∃ unit ∈ resolution.config.sources, unit.language = some language := by
    simp [Resolution.unitPaths, SourceUnit.pathsOf]
  rw [Context.sourcesOf, units, directory_filer, resolved, Resolution.HasSources, ← hunits, ne_eq,
    List.append_eq_nil_iff, not_and_or]

theorem Language.name_inj {language other : Language} (h : language.name = other.name) :
    language = other := by
  cases language <;> cases other <;> first | rfl | exact absurd h (by decide)

namespace Harness

variable {harness : Harness σ}

/-! ## The compilers of a call -/

/-- The pipeline of a call with compilers of its own. -/
def pipelineWith (harness : Harness σ) (resolution : Resolution) (frontend : Frontend σ)
    (strategy : JavaStrategy σ) : Pipeline σ :=
  .standard frontend (harness.registration? resolution) strategy harness.hooks

/-- How a call compiles Java. -/
def strategy (harness : Harness σ) (env : Environment) (resolution : Resolution) : JavaStrategy σ :=
  .select env resolution harness.javaService

theorem pipeline_eq (env : Environment) (resolution : Resolution) :
    harness.pipeline env resolution =
      harness.pipelineWith resolution harness.frontend (harness.strategy env resolution) :=
  rfl

/-- A call of the front end that a compile call should not make: without sources, or for stubs when
    there are no processors. -/
def IsMisplaced (harness : Harness σ) (args : FrontendArguments) : Prop :=
  args.sources = [] ∨ args.mode = .stubs ∧ harness.processors = []

/-- **Compilers are called for something**: what they would do otherwise makes no difference. -/
theorem run_congr (quiet : EveryCall LeavesSources harness.hooks []) {resolution : Resolution}
    {frontend other : Frontend σ} {strategy strategy' : JavaStrategy σ}
    (alike : ∀ args, ¬ harness.IsMisplaced args → other.exec args = frontend.exec args)
    (alike' : ∀ resolution sources, sources ≠ [] →
      strategy'.compile resolution sources = strategy.compile resolution sources)
    (context : Context σ) :
    (harness.pipelineWith resolution other strategy').run context =
      (harness.pipelineWith resolution frontend strategy).run context := by
  refine runFrom_congr leavesSources_composes leavesSources_looksAtFiles.scopeFor quiet
    (.cons ?kapt (.cons ?kotlin (.cons ?java .nil))) none context
  case kapt =>
    refine ⟨rfl, rfl, rfl, fun before start _ _ => ?_⟩
    rcases hregistration : harness.registration? resolution with _ | registration
    · rfl
    · obtain ⟨-, hsome⟩ := harness.registration?_some hregistration
      refine Stage.runKapt_congr (fun args _ hne => alike args ?_) start
      rintro (hnone | ⟨-, hnone⟩)
      · exact hne hnone
      · exact hsome hnone
  case kotlin =>
    refine ⟨rfl, rfl, rfl, fun before start needed leaves => ?_⟩
    have hexec := alike (Stage.kotlinArguments start) (by
      rintro (hnone | ⟨hmode, -⟩)
      · exact Stage.sources_ne_nil needed leaves hnone
      · cases hmode)
    show Context.onMachine (other.exec (Stage.kotlinArguments start)) start = _
    rw [hexec]
    rfl
  case java =>
    refine ⟨rfl, rfl, rfl, fun before start needed leaves => ?_⟩
    show Context.onMachine (strategy'.compile start.resolution (start.sourcesOf .java)) start = _
    rw [alike' _ _ (Stage.sources_ne_nil needed leaves)]
    rfl

/-- A front end that refuses to write stubs. -/
def refusingStubs (frontend : Frontend σ) (cause : Failure) : Frontend σ where
  name := frontend.name
  exec args := if args.mode = .stubs then throw cause else frontend.exec args

theorem exec_refusingStubs (frontend : Frontend σ) (cause : Failure) {args : FrontendArguments}
    (h : args.mode = .stubs) : (refusingStubs frontend cause).exec args = throw cause :=
  if_pos h

theorem exec_refusingStubs_of_ne (frontend : Frontend σ) (cause : Failure) {args : FrontendArguments}
    (h : args.mode ≠ .stubs) : (refusingStubs frontend cause).exec args = frontend.exec args :=
  if_neg h

/-- The annotation processing stage is needed when processors are registered. -/
theorem kapt_isNeeded (resolution : Resolution) (frontend : Frontend σ) (context : Context σ) :
    (Stage.kapt frontend (harness.registration? resolution)).isNeeded context = true ↔
      harness.processors ≠ [] := by
  rcases hregistration : harness.registration? resolution with _ | registration
  · have hnone : harness.processors = [] := by
      rw [registration?] at hregistration
      split at hregistration
      · cases hregistration
      · next hneeds => simpa [needsKapt] using hneeds
    simp [Stage.kapt, hnone]
  · obtain ⟨hprocessors, hsome⟩ := harness.registration?_some hregistration
    simp [Stage.kapt, hprocessors, hsome]

/-- With a front end that refuses to write stubs there is no exit code if there are processors. -/
theorem not_ok_of_refusingStubs (hsome : harness.processors ≠ []) {resolution : Resolution}
    {frontend : Frontend σ} {strategy : JavaStrategy σ} {cause : Failure} {context last : Context σ}
    {code : ExitCode} :
    (harness.pipelineWith resolution (refusingStubs frontend cause) strategy).run context ≠
      .ok code last := by
  intro h
  obtain ⟨visits, hruns⟩ := run_runs
    (harness.pipelineWith resolution (refusingStubs frontend cause) strategy) context
  rw [h] at hruns
  obtain ⟨visit, others, rfl, hstage, hskipped, -⟩ := hruns.inCourse
  have hfate : visit.fate ≠ .skipped := fun hfate => by
    have idle := hskipped.1 hfate
    rw [(kapt_isNeeded resolution _ _).2 hsome] at idle
    cases idle
  obtain ⟨start, code, ended, hrun⟩ := hruns.body_ok visit List.mem_cons_self hfate
  rw [hstage] at hrun
  rcases hregistration : harness.registration? resolution with _ | registration
  · have needed := (kapt_isNeeded resolution (refusingStubs frontend cause) start).2 hsome
    rw [hregistration] at needed
    cases needed
  · rw [hregistration] at hrun
    obtain ⟨args, machine, after, hmode, hexec⟩ := Stage.exec_of_runKapt hrun
    rw [exec_refusingStubs frontend cause hmode] at hexec
    cases hexec

/-- Why the stages of a call ran or were skipped. -/
structure Decided (harness : Harness σ) (resolution : Resolution) (visit : Visit σ) : Prop where
  /-- Annotation processing ran if there are processors. -/
  kapt : visit.stage.name = "kapt" → (visit.fate ≠ .skipped ↔ harness.processors ≠ [])
  /-- A language was compiled if there was something to compile when the run came to that. -/
  compiled : ∀ language : Language, visit.stage.name = language.name →
    (visit.fate ≠ .skipped ↔
      resolution.HasSources visit.arrival.machine.environment language)

theorem decided {resolution : Resolution} {frontend : Frontend σ} {strategy : JavaStrategy σ}
    {visit : Visit σ}
    (member : visit.stage ∈ (harness.pipelineWith resolution frontend strategy).stages)
    (skipped : visit.fate = .skipped ↔ visit.stage.isNeeded visit.arrival = false)
    (resolved : visit.arrival.resolution = resolution)
    (units : ∀ language,
      StagedSource.ofLanguage language visit.arrival.staged = resolution.unitPaths language) :
    harness.Decided resolution visit := by
  have hran : visit.fate ≠ .skipped ↔ visit.stage.isNeeded visit.arrival = true := by
    rw [ne_eq, skipped, Bool.not_eq_false]
  have hsources : ∀ language, (!(visit.arrival.sourcesOf language).isEmpty) = true ↔
      resolution.HasSources visit.arrival.machine.environment language := by
    intro language
    rw [← sourcesOf_ne_nil_iff resolved (units language)]
    simp
  simp only [pipelineWith, standard, List.mem_cons, List.not_mem_nil, or_false] at member
  rcases member with hstage | hstage | hstage <;> rw [hstage] at hran
  · refine ⟨fun _ => hran.trans (kapt_isNeeded resolution frontend visit.arrival), ?_⟩
    intro language hname
    rw [hstage] at hname
    exact absurd hname.symm (name_ne_kapt language)
  · have hname : visit.stage.name = Language.kotlin.name := by rw [hstage]; rfl
    refine ⟨fun h => absurd (hname.symm.trans h) (name_ne_kapt .kotlin), fun language h => ?_⟩
    obtain rfl := Language.name_inj (hname.symm.trans h)
    exact hran.trans (hsources .kotlin)
  · have hname : visit.stage.name = Language.java.name := by rw [hstage]; rfl
    refine ⟨fun h => absurd (hname.symm.trans h) (name_ne_kapt .java), fun language h => ?_⟩
    obtain rfl := Language.name_inj (hname.symm.trans h)
    exact hran.trans (hsources .java)

/-- **How the compilers of a call with a result are called**, if its hooks leave the sources alone.

    The front end is called for stubs if and only if there are processors: only then a refusal to
    write stubs costs the result.  It is never called without sources, nor is the Java compiler:
    whatever compilers would do then, the run is the same.  The stages are come to in turn, until one
    does not end well; processing runs if there are processors, and each language is compiled if there
    is a unit or a generated file of it by then. -/
theorem compilers_called {again : Harness σ} {machine after : Machine σ} {result : CompilationResult}
    (quiet : EveryCall LeavesSources harness.hooks [])
    (h : harness.compile machine = (.ok result, again, after)) :
    ∃ resolution staged env visits last,
      harness.prepare machine.environment = .ok (resolution, staged) env ∧
      Runs harness.hooks none (harness.pipeline env resolution).stages
        (harness.beginning machine env resolution staged) visits (.ok result.exitCode last) ∧
      (∀ cause,
        (∃ code last', (harness.pipelineWith resolution (refusingStubs harness.frontend cause)
          (harness.strategy env resolution)).run
            (harness.beginning machine env resolution staged) = .ok code last') ↔
          harness.processors = []) ∧
      (∀ frontend strategy,
        (∀ args, ¬ harness.IsMisplaced args → frontend.exec args = harness.frontend.exec args) →
        (∀ other sources, sources ≠ [] →
          strategy.compile other sources = (harness.strategy env resolution).compile other sources) →
        (harness.pipelineWith resolution frontend strategy).run
          (harness.beginning machine env resolution staged) = .ok result.exitCode last) ∧
      InCourse (harness.pipeline env resolution).stages visits ∧
      ∀ visit ∈ visits, harness.Decided resolution visit := by
  obtain ⟨resolution, staged, env, code, last, hprepare, hrun, rfl, -⟩ := compile_ok h
  obtain ⟨visits, hruns⟩ := run_runs (harness.pipeline env resolution)
    (harness.beginning machine env resolution staged)
  rw [hrun] at hruns
  rw [pipeline_eq] at hrun
  refine ⟨resolution, staged, env, visits, last, hprepare, hruns, fun cause => ⟨?_, fun hnone => ?_⟩,
    fun frontend strategy alike alike' => ?_, hruns.inCourse, fun visit hm => ?_⟩
  · rintro ⟨code, last', hrefused⟩
    exact Classical.byContradiction fun hsome => not_ok_of_refusingStubs hsome hrefused
  · have hsame : (harness.pipelineWith resolution (refusingStubs harness.frontend cause)
          (harness.strategy env resolution)).run (harness.beginning machine env resolution staged) =
        (harness.pipelineWith resolution harness.frontend (harness.strategy env resolution)).run
          (harness.beginning machine env resolution staged) := by
      refine run_congr quiet (fun args placed => ?_) (fun _ _ _ => rfl) _
      exact exec_refusingStubs_of_ne _ _ fun hmode => placed (.inr ⟨hmode, hnone⟩)
    exact ⟨result.exitCode, last, hsame.trans hrun⟩
  · rw [run_congr quiet alike alike', hrun]
  · obtain ⟨-, units⟩ := prepare_ok hprepare
    have keeps : EveryCall SameStaging (harness.pipeline env resolution).hooks
        (harness.pipeline env resolution).stages :=
      everyCall_standard sameStaging_composes (fun _ _ => ⟨rfl, rfl⟩) _ _ _
        ⟨fun hook hm stage context => (quiet.before hook hm stage context).sameStaging,
          fun _ hm => absurd hm List.not_mem_nil,
          fun hook hm stage code context => (quiet.after hook hm stage code context).sameStaging⟩
    have arrived : SameStaging (harness.beginning machine env resolution staged) visit.arrival :=
      hruns.arrival sameStaging_composes
        (fun context stage outcome => (leavesSources_looksAtFiles.noted context stage outcome).sameStaging)
        (fun stage scope context => (leavesSources_looksAtFiles.scopeFor stage scope context).sameStaging)
        keeps visit hm
    obtain ⟨member, skipped⟩ := hruns.inCourse.of_mem visit hm
    refine decided member skipped arrived.resolution fun language => ?_
    rw [arrived.staged]
    exact units language

/-- A harness for one class and one processor, with compilers that have nothing to complain about. -/
def building : Harness Unit :=
  { launching [classUnit] [Processing.builder] with
    javaService := some ⟨"idle", fun _ machine => (⟨.ok true, .empty⟩, machine)⟩ }

/-- The machine that it works on. -/
def buildingMachine : Machine Unit := .start launcherEnvironment 5 ()

theorem building_ok :
    ∃ result again after, building.compile buildingMachine = (.ok result, again, after) := by
  have succeeds : (building.compile buildingMachine).1.isOk = true := by decide +kernel
  rcases hcompile : building.compile buildingMachine with ⟨cause | result, again, after⟩
  · rw [hcompile] at succeeds
    cases succeeds
  · exact ⟨result, again, after, rfl⟩

theorem building_called :
    EveryCall LeavesSources building.hooks [] ∧
      ∃ result again after, building.compile buildingMachine = (.ok result, again, after) ∧
        ∃ resolution staged env visits last,
          building.prepare buildingMachine.environment = .ok (resolution, staged) env ∧
          Runs building.hooks none (building.pipeline env resolution).stages
            (building.beginning buildingMachine env resolution staged) visits
            (.ok result.exitCode last) ∧
          (∀ cause,
            (∃ code last', (building.pipelineWith resolution
              (refusingStubs building.frontend cause) (building.strategy env resolution)).run
                (building.beginning buildingMachine env resolution staged) = .ok code last') ↔
              building.processors = []) ∧
          (∀ frontend strategy,
            (∀ args, ¬ building.IsMisplaced args →
              frontend.exec args = building.frontend.exec args) →
            (∀ other sources, sources ≠ [] → strategy.compile other sources =
              (building.strategy env resolution).compile other sources) →
            (building.pipelineWith resolution frontend strategy).run
              (building.beginning buildingMachine env resolution staged) =
                .ok result.exitCode last) ∧
          InCourse (building.pipeline env resolution).stages visits ∧
          ∀ visit ∈ visits, building.Decided resolution visit := by
  have quiet : EveryCall LeavesSources building.hooks [] := .of_stages (List.forall_mem_nil _)
  obtain ⟨result, again, after, hcompile⟩ := building_ok
  exact ⟨quiet, result, again, after, hcompile, compilers_called quiet hcompile⟩

end Harness

end KotlinHarness
