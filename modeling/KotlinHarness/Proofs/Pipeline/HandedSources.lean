/-
  Which sources the compilers are handed.

  The Kotlin and the Java stage compile the staged sources of their language, followed by what is
  found below a directory for generated sources.  That listing is made anew by each stage, so what
  is in it depends on everything that happened to files before: on the processors, the front end
  that calls them, the hooks in between, and on what was there when the call started.

  `stages_handed` says what comes of it where nothing was there: the staged units, one path for each
  in the order of the configuration, and then the files that the filer created for a type of the
  language, each once (`Handed`).  Nothing tells those files from others in the same place, so what
  an earlier call generated is compiled again by one that generates nothing (`leftovers_handed`).

  The front end may be any that calls the plugins in the end (`PluginHost`).
-/
import KotlinHarness.Proofs.Pipeline.Generation
import KotlinHarness.Proofs.Pipeline.Visits
import KotlinHarness.Proofs.Workspace.Outside
import KotlinHarness.Rehearsal.Frontend

namespace KotlinHarness

open Pipeline

variable {σ : Type}

/-! ## What leaves the sources alone -/

/-- Whatever happened, the same sources would be compiled. -/
structure LeavesSources (before after : Context σ) : Prop where
  resolution : after.resolution = before.resolution
  staged : after.staged = before.staged
  generated : ∀ language,
    findSources after.machine.environment (after.generatedDir language) language =
      findSources before.machine.environment (before.generatedDir language) language

theorem leavesSources_composes : Composes (@LeavesSources σ) := by
  constructor
  · intro context
    exact ⟨rfl, rfl, fun _ => rfl⟩
  · intro first second third h h'
    refine ⟨h'.resolution.trans h.resolution, h'.staged.trans h.staged, ?_⟩
    intro language
    exact (h'.generated language).trans (h.generated language)

/-- What looks at the resolution, the staged units and the files alone. -/
def LooksAtFiles (R : Context σ → Context σ → Prop) : Prop :=
  ∀ before after : Context σ, after.resolution = before.resolution → after.staged = before.staged →
    after.machine.environment = before.machine.environment → R before after

namespace LooksAtFiles

variable {R : Context σ → Context σ → Prop}

theorem noted (h : LooksAtFiles R) (context : Context σ) (stage : String) (outcome : StageOutcome) :
    R context (context.noted stage outcome) :=
  h _ _ rfl rfl rfl

theorem scopeFor (h : LooksAtFiles R) (stage : Stage σ) (scope : Option ScopeId)
    (context : Context σ) : R context (Pipeline.scopeFor stage scope context).2 := by
  rw [Pipeline.scopeFor]
  split <;> cases scope <;> exact h _ _ rfl rfl rfl

/-- Compiling with the launcher changes no file. -/
theorem kotlin (h : LooksAtFiles R) (launcher : Launcher) :
    Keeps R (Stage.kotlin (launcher.frontend : Frontend σ)).run := by
  intro context
  have hprints := launcher.keeps_exec_compile (Stage.kotlinArguments context) rfl context.machine
  show R context (finalState (Context.onMachine
    (launcher.exec (Stage.kotlinArguments context)) context))
  rw [Context.onMachine]
  rcases hexec : launcher.exec (Stage.kotlinArguments context) context.machine with
    ⟨code, after⟩ | ⟨cause, after⟩
  · rw [hexec] at hprints
    exact h _ _ rfl rfl hprints.environment
  · rw [hexec] at hprints
    exact h _ _ rfl rfl hprints.environment

end LooksAtFiles

theorem leavesSources_looksAtFiles : LooksAtFiles (@LeavesSources σ) := by
  intro before after resolution staged environment
  refine ⟨resolution, staged, fun language => ?_⟩
  rw [environment]
  cases language <;> simp only [Context.generatedDir, resolution]

/-- The same sources would be compiled, and no other ones came to be where they are looked for. -/
structure SparesSources (before after : Context σ) : Prop extends LeavesSources before after where
  spares : before.resolution.filer.Spares before.machine.environment after.machine.environment

theorem sparesSources_composes : Composes (@SparesSources σ) where
  refl context := ⟨leavesSources_composes.refl context,
    (Filer.spares_composes context.resolution.filer).refl _⟩
  trans {first second third} h h' := by
    refine ⟨leavesSources_composes.trans h.toLeavesSources h'.toLeavesSources, ?_⟩
    have hspares := h'.spares
    rw [h.resolution] at hspares
    exact (Filer.spares_composes first.resolution.filer).trans h.spares hspares

theorem sparesSources_looksAtFiles : LooksAtFiles (@SparesSources σ) := by
  intro before after resolution staged environment
  refine ⟨leavesSources_looksAtFiles _ _ resolution staged environment, ?_⟩
  rw [environment]
  exact (Filer.spares_composes _).refl _

namespace PluginHost

/-- Which generation belongs to a run: that of the annotation processing stage, if it was called. -/
inductive Accounts {frontend : Frontend σ} (host : PluginHost frontend)
    (registration? : Option (Registration σ)) (env : Environment) (visits : List (Visit σ)) :
    Generation → Prop
  | skipped {visit : Visit σ} (hm : visit ∈ visits) (name : visit.stage.name = "kapt")
      (skipped : visit.fate = .skipped) : Accounts host registration? env visits ⟨env, [], env⟩
  | called {registration : Registration σ} {visit : Visit σ} {start : Context σ}
      (installed : registration? = some registration) (hm : visit ∈ visits)
      (name : visit.stage.name = "kapt") (made : Made.mk (.body visit.stage) start ∈ visit.made) :
      Accounts host registration? env visits (host.generation registration start)

variable {frontend : Frontend σ} {filer : Filer} {registration : Registration σ}
  {context ended : Context σ}

/-- Until the processors are called, only the empty Kotlin source and the listing of the plugin are
    written, and what the front end writes. -/
theorem generation_spares (host : PluginHost frontend)
    (placeholder : StagedSource.ofLanguage .kotlin context.staged = [] →
      filer.IsOutside context.machine.environment.workingDirectory
        ((Stage.placeholderPath context.resolution.workspace).aim
          context.machine.environment.workingDirectory))
    (spares : ∀ args, Keeps (fun before after => filer.Spares before.environment after.environment)
      (host.prepare args))
    {code : ExitCode} (h : Stage.runKapt frontend registration context = .ok code ended) :
    filer.Spares context.machine.environment (host.generation registration context).before := by
  obtain ⟨-, -, args, given, reached, last, happroach, -, -, -⟩ := host.runKapt_ok h
  have hbefore : (host.generation registration context).before = reached.machine.environment := by
    rw [generation, happroach]
    cases given <;> rfl
  rw [hbefore]
  rw [approach, get_bind] at happroach
  obtain ⟨sources, first, hsources, happroach⟩ := of_bind_ok happroach
  obtain ⟨_, second, hregister, happroach⟩ := of_bind_ok happroach
  obtain ⟨_, _, hprepare, hreached⟩ := of_bind_ok happroach
  cases hreached
  obtain ⟨hsources, hresolution, hstaged⟩ := onEnvironment_ok hsources
  obtain ⟨hregister, -, -⟩ := onEnvironment_ok hregister
  obtain ⟨hprepare, -, -⟩ := onMachine_ok hprepare
  have composes := Filer.spares_composes filer
  have hfirst : filer.Spares context.machine.environment first.machine.environment :=
    Stage.kaptSources_spares placeholder hsources
  have hsecond : filer.Spares first.machine.environment second.machine.environment :=
    Plugin.register_spares hregister
  have hthird : filer.Spares (holding registration second.machine).environment
      reached.machine.environment := (spares _).of_ok hprepare
  exact composes.trans (composes.trans hfirst hsecond) hthird

end PluginHost

/-- The launcher writes no file before it calls the plugins. -/
theorem Launcher.spares_prepare (launcher : Launcher) (filer : Filer) (args : FrontendArguments) :
    Keeps (fun before after : Machine σ => filer.Spares before.environment after.environment)
      (launcher.host.prepare args) := by
  intro machine
  have hprints := launcher.keeps_prepare args machine
  show filer.Spares machine.environment (finalState (launcher.prepare args machine)).environment
  rw [hprints.environment]
  exact (Filer.spares_composes filer).refl _

/-! ## What is handed over -/

theorem directory_filer (context : Context σ) (language : Language) :
    context.generatedDir language = context.resolution.filer.directory language := by
  cases language <;> rfl

/-- What the stage that compiles a language is handed. -/
structure Handed (resolution : Resolution) (created : List Path) (language : Language)
    (handed : List Path) : Prop where
  /-- The staged units, one path for each, then the files that the filer created for a type of the
      language, each once. -/
  sources : ∃ generated, handed = resolution.unitPaths language ++ generated ∧ generated.Nodup ∧
    ∀ path, path ∈ generated ↔ path ∈ created ∧ resolution.filer.Places language path
  /-- Where the filer created nothing, only staged units are compiled. -/
  alone : created = [] → handed = resolution.unitPaths language
  /-- No path is handed over twice, unless two units have it. -/
  distinct : (resolution.unitPaths language).Nodup → handed.Nodup

theorem isEmpty_directory {resolution : Resolution}
    (h : resolution.generatedKotlinDir.isEmpty = false) (language : Language) :
    (resolution.filer.directory language).isEmpty = false := by
  cases language with
  | kotlin => exact h
  | java => exact Path.isEmpty_div (Path.isEntry_of_plain (by decide))

/-- The list that a stage is handed, from the files that were created and the units staged. -/
theorem handed_of_gains {resolution : Resolution} {staged : List StagedSource}
    {generation : Generation} {first start : Context σ} {language : Language}
    (nonempty : resolution.generatedKotlinDir.isEmpty = false)
    (units : ∀ language, StagedSource.ofLanguage language staged = resolution.unitPaths language)
    (outside : ∀ path ∈ resolution.unitPaths language,
      resolution.filer.IsOutside generation.before.workingDirectory
        (path.aim generation.before.workingDirectory))
    (gains : Environment.Gains generation.created generation.before generation.after)
    (bare : resolution.filer.IsBare generation.before) (proper : generation.after.ProperNames)
    (types : ∀ path ∈ generation.created, ∃ language, resolution.filer.Places language path)
    (resolved : first.resolution = resolution) (hstaged : first.staged = staged)
    (files : first.machine.environment = generation.after) (leaves : LeavesSources first start) :
    Handed resolution generation.created language (start.sourcesOf language) := by
  have hsources : start.sourcesOf language = resolution.unitPaths language ++
      findSources generation.after (resolution.filer.directory language) language := by
    rw [Context.sourcesOf, leaves.staged, hstaged, units, leaves.generated, directory_filer,
      resolved, files]
  have once := Environment.nodup_findSources proper (resolution.filer.directory language) language
  have listed : ∀ path,
      path ∈ findSources generation.after (resolution.filer.directory language) language ↔
        path ∈ generation.created ∧ resolution.filer.Places language path := fun path =>
    gains.listed_iff proper (isEmpty_directory nonempty) types bare
  rw [hsources]
  refine ⟨⟨_, rfl, once, listed⟩, fun hnone => ?_, fun distinct => ?_⟩
  · rw [List.append_right_eq_self, List.eq_nil_iff_forall_not_mem]
    intro path hgenerated
    exact List.not_mem_nil (hnone ▸ ((listed path).1 hgenerated).1)
  · refine List.nodup_append.2 ⟨distinct, once, ?_⟩
    rintro path hunit _ hgenerated rfl
    obtain ⟨hcreated, places⟩ := (listed path).1 hgenerated
    exact gains.inside (isEmpty_directory nonempty language) hcreated places (outside path hunit)

namespace Harness

/-- What is known once the sources are staged. -/
theorem prepare_ok {harness : Harness σ} {env after : Environment} {resolution : Resolution}
    {staged : List StagedSource} (h : harness.prepare env = .ok (resolution, staged) after) :
    resolution.generatedKotlinDir.isEmpty = false ∧
      ∀ language, StagedSource.ofLanguage language staged = resolution.unitPaths language := by
  obtain ⟨_, _, hresolve, -, hstaged⟩ := prepare_eq_ok.1 h
  exact ⟨(Resolution.resolve_ok hresolve).2, SourceUnit.ofLanguage_stageAll hstaged⟩

/-- The registration of a call's processors; none without processors. -/
def registration? (harness : Harness σ) (resolution : Resolution) : Option (Registration σ) :=
  if harness.needsKapt then some (.ofResolution harness.processors resolution) else none

theorem registration?_some (harness : Harness σ) {resolution : Resolution}
    {registration : Registration σ} (h : harness.registration? resolution = some registration) :
    registration.processors = harness.processors ∧ harness.processors ≠ [] := by
  rw [registration?] at h
  split at h
  · next hneeds =>
    cases h
    refine ⟨rfl, fun hnone => ?_⟩
    rw [needsKapt, hnone] at hneeds
    cases hneeds
  · cases h

theorem name_ne_kapt (language : Language) : language.name ≠ "kapt" := by
  cases language <;> decide

section Called

variable {harness : Harness σ} {resolution : Resolution} {registration : Registration σ}
  {first ended : Context σ} {code : ExitCode}

/-- The annotation processing stage is needed where there is a registration. -/
theorem registration?_of_needed {frontend : Frontend σ} {registration? : Option (Registration σ)}
    {context : Context σ} (needed : (Stage.kapt frontend registration?).isNeeded context = true) :
    ∃ registration, registration? = some registration := by
  rcases registration? with - | registration
  · cases needed
  · exact ⟨registration, rfl⟩

/-- What the stage does until it calls the processors of a call is done outside. -/
theorem spares_until_called (host : PluginHost harness.frontend)
    (hregistration : harness.registration? resolution = some registration)
    (resolved : first.resolution = resolution)
    (units : StagedSource.ofLanguage .kotlin first.staged = resolution.unitPaths .kotlin)
    (apart : ∀ path ∈ harness.written resolution,
      resolution.filer.IsOutside first.machine.environment.workingDirectory
        (path.aim first.machine.environment.workingDirectory))
    (spares : ∀ args, Keeps (fun before after =>
      resolution.filer.Spares before.environment after.environment) (host.prepare args))
    (hrun : Stage.runKapt harness.frontend registration first = .ok code ended) :
    resolution.filer.Spares first.machine.environment
      (host.generation registration first).before := by
  refine host.generation_spares (fun hnone => ?_) spares hrun
  rw [units] at hnone
  rw [resolved]
  exact apart _ (placeholder_written (harness.registration?_some hregistration).2 hnone)

end Called

/-- **The compilers are handed** the staged units and what the filer created, whatever processors
    there are and whatever the configuration is, as long as no source was below the directories for
    generated sources when the call started, and none is put there but by the filer. -/
theorem stages_handed (harness : Harness σ) (host : PluginHost harness.frontend)
    (machine : Machine σ) {resolution : Resolution} {staged : List StagedSource}
    {env : Environment} (prepared : harness.prepare machine.environment = .ok (resolution, staged) env)
    (bare : resolution.filer.IsBare machine.environment)
    (apart : ∀ path ∈ harness.written resolution,
      resolution.filer.IsOutside machine.environment.workingDirectory
        (path.aim machine.environment.workingDirectory))
    (works : ∀ processor ∈ harness.processors,
      Processing.WorksInSteps Processing.WritesNoSources processor)
    (spares : ∀ args, Keeps (fun before after =>
      resolution.filer.Spares before.environment after.environment) (host.prepare args))
    (quiet : EveryCall SparesSources harness.hooks [.kotlin harness.frontend]) :
    ∃ visits,
      Runs harness.hooks none (harness.pipeline env resolution).stages
        ⟨{ machine with environment := env }, resolution, staged, []⟩ visits
        ((harness.pipeline env resolution).run
          ⟨{ machine with environment := env }, resolution, staged, []⟩) ∧
      ∀ visit ∈ visits, ∀ start, Made.mk (.body visit.stage) start ∈ visit.made →
        ∀ language : Language, visit.stage.name = language.name →
          ∃ generation,
            host.Accounts (harness.registration? resolution) env visits generation ∧
            (harness.processors = [] → generation.created = []) ∧
            (generation.after.ProperNames →
              (∀ path ∈ generation.created, ∃ language, resolution.filer.Places language path) →
              Handed resolution generation.created language (start.sourcesOf language)) := by
  obtain ⟨nonempty, units⟩ := prepare_ok prepared
  have hprepared := prepare_spares prepared apart
  have hbare := hprepared.bare bare
  rw [← hprepared.workingDirectory] at apart
  have outside : ∀ language, ∀ path ∈ resolution.unitPaths language,
      resolution.filer.IsOutside env.workingDirectory (path.aim env.workingDirectory) :=
    fun language path hm => apart path (harness.unitPaths_written hm)
  obtain ⟨visits, h⟩ := run_runs (harness.pipeline env resolution)
    ⟨{ machine with environment := env }, resolution, staged, []⟩
  refine ⟨visits, h, ?_⟩
  generalize (harness.pipeline env resolution).run
    ⟨{ machine with environment := env }, resolution, staged, []⟩ = result at h
  have h : Runs harness.hooks none
      [.kapt harness.frontend (harness.registration? resolution), .kotlin harness.frontend,
        .java (.select env resolution harness.javaService)]
      ⟨{ machine with environment := env }, resolution, staged, []⟩ visits result := h
  -- Nothing that comes after the annotation processing stage changes the sources.
  have later : ∀ {scope : Option ScopeId} {first : Context σ} {visits : List (Visit σ)},
      Runs harness.hooks scope [.kotlin harness.frontend,
        .java (.select env resolution harness.javaService)] first visits result →
      ∀ visit ∈ visits, ∀ start, Made.mk (.body visit.stage) start ∈ visit.made →
        SparesSources first start := fun others =>
    Runs.start sparesSources_composes sparesSources_looksAtFiles.noted
      sparesSources_looksAtFiles.scopeFor quiet others
  cases h with
  | skip idle others =>
    intro visit hvisit start hm language hname
    rcases List.mem_cons.1 hvisit with rfl | hlater
    · exact absurd hm List.not_mem_nil
    · refine ⟨⟨env, [], env⟩, .skipped List.mem_cons_self rfl rfl, fun _ => rfl,
        fun proper types => ?_⟩
      exact handed_of_gains nonempty units (outside language) (.refl env) hbare proper types rfl rfl
        rfl (later others visit hlater start hm).toLeavesSources
  | @goOn _ _ _ _ after made visits _ needed attended others =>
    intro visit hvisit start hm language hname
    rcases List.mem_cons.1 hvisit with rfl | hlater
    · exact absurd hname.symm (name_ne_kapt language)
    · obtain ⟨first, ended, hmade, hfirst, hbody, hended⟩ :=
        attended.around sparesSources_composes sparesSources_looksAtFiles.noted quiet
      have hrun : (Stage.kapt harness.frontend (harness.registration? resolution)).run first =
          .ok .ok ended := during_eq_ok hbody
      obtain ⟨registration, hregistration⟩ := registration?_of_needed needed
      rw [hregistration] at hrun
      obtain ⟨hprocessors, hsome⟩ := harness.registration?_some hregistration
      have works : ∀ processor ∈ registration.processors,
          Processing.WorksInSteps Processing.WritesNoSources processor := by
        rw [hprocessors]
        exact works
      obtain ⟨hresolution, hstaged, -⟩ := host.runKapt_ok hrun
      obtain ⟨hfiles, hgains⟩ := host.generation_gains works hrun
      -- Around the stage there are hooks and the scope of a property.
      have hscope := sparesSources_composes.trans
        (sparesSources_looksAtFiles.scopeFor _ _ _) hfirst
      have hleaves := sparesSources_composes.trans hended (later others visit hlater start hm)
      have hfirst : resolution.filer.Spares env first.machine.environment := hscope.spares
      rw [← hfirst.workingDirectory] at apart
      have hspares : resolution.filer.Spares env (host.generation registration first).before :=
        (Filer.spares_composes _).trans hfirst (spares_until_called host hregistration
          hscope.resolution (by rw [hscope.staged, units]) apart spares hrun)
      refine ⟨host.generation registration first, .called hregistration List.mem_cons_self rfl hmade,
        fun hnone => absurd hnone hsome, fun proper types => ?_⟩
      refine handed_of_gains nonempty units ?_ hgains (hspares.bare hbare) proper types
        (hresolution.trans hscope.resolution) (hstaged.trans hscope.staged) hfiles
        hleaves.toLeavesSources
      rw [hspares.workingDirectory]
      exact outside language
  | stop needed attended last =>
    intro visit hvisit start hm language hname
    cases List.mem_singleton.1 hvisit
    exact absurd hname.symm (name_ne_kapt language)

/-- A unit that declares one class. -/
def classUnit : SourceUnit := ⟨⟨"A.kt"⟩, "class A", some .kotlin⟩

/-- A harness for Kotlin units that uses the launcher on the search path. -/
def launching (units : List SourceUnit) (processors : List (Processor Unit)) : Harness Unit :=
  { ofConfig { workingDir := some ⟨"/w"⟩, sources := units } .discarding with processors }

/-- An environment with a launcher that has nothing to complain about. -/
def launcherEnvironment : Environment :=
  let program : Program := ⟨fun _ => ⟨[], [], .exited 0⟩⟩
  { (default : Environment) with
    files := (FileTree.empty.insert ["bin"] .directory).insert ["bin", "kotlinc"]
      (.file ⟨[], .executable (some program)⟩)
    vars := [("PATH", "/bin")] }

theorem builder_handed :
    ∃ resolution staged env,
      (launching [classUnit] [Processing.builder]).prepare launcherEnvironment =
        .ok (resolution, staged) env ∧
      resolution.filer.IsBare launcherEnvironment ∧
      (∀ path ∈ (launching [classUnit] [Processing.builder]).written resolution,
        resolution.filer.IsOutside launcherEnvironment.workingDirectory
          (path.aim launcherEnvironment.workingDirectory)) ∧
      (∀ processor ∈ [Processing.builder],
        Processing.WorksInSteps Processing.WritesNoSources processor) ∧
      (∀ args, Keeps (fun before after : Machine Unit =>
        resolution.filer.Spares before.environment after.environment)
        ((Launcher.host ⟨none⟩).prepare args)) ∧
      EveryCall SparesSources ([] : List (Hook Unit)) [.kotlin (Launcher.frontend ⟨none⟩)] ∧
      ∃ visits,
        Runs [] none
          ((launching [classUnit] [Processing.builder]).pipeline env resolution).stages
          ⟨{ Machine.start launcherEnvironment 5 () with environment := env },
            resolution, staged, []⟩
          visits
          (((launching [classUnit] [Processing.builder]).pipeline env resolution).run
            ⟨{ Machine.start launcherEnvironment 5 () with environment := env },
              resolution, staged, []⟩) ∧
        ∀ visit ∈ visits, ∀ start, Made.mk (.body visit.stage) start ∈ visit.made →
          ∀ language : Language, visit.stage.name = language.name →
            ∃ generation,
              (Launcher.host ⟨none⟩).Accounts
                ((launching [classUnit] [Processing.builder]).registration? resolution) env visits
                generation ∧
              ([Processing.builder] = [] → generation.created = []) ∧
              (generation.after.ProperNames →
                (∀ path ∈ generation.created, ∃ language, resolution.filer.Places language path) →
                Handed resolution generation.created language (start.sourcesOf language)) := by
  have succeeds : succeedsWith (fun prepared _ => decide
        (prepared.1.workspace = ⟨⟨"/w"⟩⟩ ∧ prepared.1.config.sources = [classUnit] ∧
          prepared.1.generatedKotlinDir = prepared.1.workspace.generatedKotlin))
      ((launching [classUnit] [Processing.builder]).prepare launcherEnvironment) = true := by
    decide +kernel
  have works : ∀ processor ∈ [Processing.builder],
      Processing.WorksInSteps Processing.WritesNoSources processor := by
    intro processor hm round
    rw [List.mem_singleton.1 hm]
    unfold Processing.builder
    simp only
    split
    · refine (Processing.steps_composes Processing.WritesNoSources).keeps_bind (fun state => ?_)
        fun _ => .refl
      exact .tail (.refl state) (.create .java "gen.ABuilder" _)
    · exact .refl
  have quiet : EveryCall SparesSources ([] : List (Hook Unit))
      [.kotlin (Launcher.frontend ⟨none⟩)] := by
    refine .of_stages fun stage hm => ?_
    rw [List.mem_singleton.1 hm]
    exact sparesSources_looksAtFiles.kotlin ⟨none⟩
  have built : classUnit.IsBuilt := .inl ⟨⟨"A.kt"⟩, "class A", by decide +kernel⟩
  obtain ⟨⟨resolution, staged⟩, env, hprepare, hsettled⟩ := of_succeedsWith succeeds
  obtain ⟨hworkspace, hsources, own⟩ := of_decide_eq_true hsettled
  have spares := Launcher.spares_prepare (σ := Unit) ⟨none⟩ resolution.filer
  have bare : resolution.filer.IsBare launcherEnvironment := by
    refine Filer.isBare_of_missing fun language => ?_
    cases language with
    | kotlin =>
      show launcherEnvironment.look (resolution.generatedKotlinDir.aim _) = none
      rw [own, hworkspace]
      decide +kernel
    | java =>
      show launcherEnvironment.look (resolution.workspace.generatedJava.aim _) = none
      rw [hworkspace]
      decide +kernel
  have apart : ∀ path ∈ (launching [classUnit] [Processing.builder]).written resolution,
      resolution.filer.IsOutside launcherEnvironment.workingDirectory
        (path.aim launcherEnvironment.workingDirectory) := by
    refine written_outside own fun unit hm => ?_
    rw [hsources, List.mem_singleton] at hm
    rwa [hm]
  exact ⟨resolution, staged, env, hprepare, bare, apart, works, spares, quiet,
    stages_handed (launching [classUnit] [Processing.builder]) (Launcher.host ⟨none⟩)
      (Machine.start launcherEnvironment 5 ()) hprepare bare apart works spares quiet⟩

/-- The Kotlin and the Java sources in every call that a rehearsed front end gets when a compile call
    without processors follows one with processors. -/
def sourcesAfter (processors : List (Processor Unit)) : List (List Path × List Path) :=
  let harness (processors : List (Processor Unit)) : Harness Unit :=
    { launching [classUnit] processors with frontend := Rehearsal.frontend }
  let first := ((harness processors).compile (Machine.start default 5 ())).2.2
  let second := ((harness []).compile (Machine.start first.environment 5 ())).2.2
  let calls := second.calls.filterMap ToolCall.frontendArgs?
  calls.map fun args => (args.sources, args.javaSources)

/-- What a processor generated in an earlier call is handed over in a later one without any. -/
theorem leftovers_handed :
    sourcesAfter [Processing.builder] =
      [([⟨"/w/sources/A.kt"⟩], [⟨"/w/kapt/sources/gen/ABuilder.java"⟩])] := by
  decide +kernel

end Harness

end KotlinHarness
