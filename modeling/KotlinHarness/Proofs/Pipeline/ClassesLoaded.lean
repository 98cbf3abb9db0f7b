/-
  Loading what was compiled.

  The compilers of a rehearsal write a class file for every type that they find in their sources, and
  the loader of the result looks for class files by the names of types.  That the one finds what the
  others wrote is proved along the stages of a call: each stage calls a compiler, and what was compiled
  before stays compiled (`Accounted`), as no later stage and no hook changes a file that was there, but
  for class files, which are written anew with the same octets.

  The loader takes no name with a mark, connector or join control in it that is not alphanumeric, while
  sources may declare such names (`accented_not_loaded`).

    * `kapt_accounted`, `kotlin_accounted`, `java_accounted`
                          what each stage adds to what is compiled
    * `types_loaded`      what the loader answers for every type in every compiled source
-/
import KotlinHarness.Proofs.ClassLoader.Declared
import KotlinHarness.Proofs.Pipeline.Recompiled
import KotlinHarness.Proofs.Rehearsal.Classes
import KotlinHarness.Proofs.Source.Units

namespace KotlinHarness

open Environment Pipeline Rehearsal

variable {σ : Type}

/-- The sources that a call compiles; one for stubs compiles none. -/
def ToolCall.compiled : ToolCall → List Path
  | .frontend args =>
    match args.mode with
    | .compile => args.sources
    | .stubs => []
  | .service args => sourcesAmong args

/-! ## What hooks may do -/

/-- Class files of the version that is written may be written and any files created, but every other
    file stays as it was, and so do the staging and the record of calls. -/
structure LeavesClasses (before after : Context σ) : Prop where
  resolution : after.resolution = before.resolution
  staged : after.staged = before.staged
  calls : after.machine.calls = before.machine.calls
  files : Spares IsWritten before.machine.environment after.machine.environment

theorem leavesClasses_composes : Composes (@LeavesClasses σ) := by
  constructor
  · intro context
    exact ⟨rfl, rfl, rfl, spares_composes.refl _⟩
  · intro first second third h h'
    exact ⟨h'.resolution.trans h.resolution, h'.staged.trans h.staged, h'.calls.trans h.calls,
      spares_composes.trans h.files h'.files⟩

theorem leavesClasses_noted (context : Context σ) (stage : String) (outcome : StageOutcome) :
    LeavesClasses context (context.noted stage outcome) :=
  ⟨rfl, rfl, rfl, spares_composes.refl _⟩

theorem leavesClasses_scopeFor (stage : Stage σ) (scope : Option ScopeId) (context : Context σ) :
    LeavesClasses context (scopeFor stage scope context).2 := by
  obtain ⟨properties, nextScope, heq⟩ := scopeFor_eq stage scope context
  rw [heq]
  exact ⟨rfl, rfl, rfl, spares_composes.refl _⟩

theorem leavesClasses_closeScope (scope : Option ScopeId) (context : Context σ) :
    LeavesClasses context (closeScope scope context) := by
  obtain ⟨properties, nextScope, heq⟩ := closeScope_eq scope context
  rw [heq]
  exact ⟨rfl, rfl, rfl, spares_composes.refl _⟩

/-! ## From stage to stage -/

section Steps

variable {R : Context σ → Context σ → Prop} {hooks : List (Hook σ)} {scope : Option ScopeId}
  {stage : Stage σ} {rest : List (Stage σ)} {context last : Context σ} {visits : List (Visit σ)}
  {P Q : Context σ → Prop}

/-- In a run that ends well a stage is skipped or ends well; if what holds before it comes to hold
    after it either way, it does when the run comes to the next stage. -/
theorem Pipeline.Runs.step (composes : Composes R)
    (noted : ∀ context stage outcome, R context (context.noted stage outcome))
    (inScope : ∀ stage scope context, R context (scopeFor stage scope context).2)
    (quiet : EveryCall R hooks []) (stable : ∀ {context later}, R context later → P context → P later)
    (stable' : ∀ {context later}, R context later → Q context → Q later)
    (skipped : ∀ context, stage.isNeeded context = false → P context → Q context)
    (ran : ∀ start ended, P start → stage.run start = .ok .ok ended → Q ended)
    (h : Runs hooks scope (stage :: rest) context visits (.ok .ok last)) (start : P context) :
    ∃ scope next visits, Runs hooks scope rest next visits (.ok .ok last) ∧ Q next := by
  generalize hresult : EStateM.Result.ok ExitCode.ok last = result at h
  cases h with
  | skip idle others =>
    subst hresult
    exact ⟨_, _, _, others, stable' (noted context _ _) (skipped context idle start)⟩
  | goOn needed attended others =>
    subst hresult
    obtain ⟨first, ended, -, hfirst, hbody, hended⟩ := attended.around composes noted quiet
    have hstart := stable hfirst (stable (inScope stage scope context) start)
    exact ⟨_, _, _, others, stable' hended (ran first ended hstart (during_eq_ok hbody))⟩
  | @stop _ _ _ _ _ _ fate _ _ finished =>
    -- A visit that ends the run does not end it well.
    cases fate with
    | skipped => cases finished
    | ran code =>
      cases hresult
      cases finished
    | stoppedBefore cause => cases hresult
    | failed cause => cases hresult
    | stoppedAfter code cause => cases hresult

end Steps

/-! ## What is compiled by then -/

/-- What the calls of compilers came to: all sources of these calls are done with, and among them are
    the staged units of some languages. -/
structure Accounted (settled : Resolution) (calls : List ToolCall) (languages : List Language)
    (done : Environment → Path → Prop) (context : Context σ) : Prop where
  resolution : context.resolution = settled
  units : ∀ language, StagedSource.ofLanguage language context.staged = settled.unitPaths language
  calls : ∃ more, context.machine.calls = calls ++ more ∧
    (∀ call ∈ more, ∀ source ∈ call.compiled, done context.machine.environment source) ∧
    ∀ language ∈ languages, ∀ path ∈ settled.unitPaths language,
      ∃ call ∈ more, path ∈ call.compiled

namespace Accounted

variable {resolution : Resolution} {calls : List ToolCall} {languages : List Language}
  {done : Environment → Path → Prop} {context start : Context σ} {language : Language}

theorem later {other : Context σ} (h : Accounted resolution calls languages done context)
    (stable : ∀ {old new source}, Spares IsWritten old new → done old source → done new source)
    (leaves : LeavesClasses context other) : Accounted resolution calls languages done other := by
  obtain ⟨more, hmore, hdone, hcovered⟩ := h.calls
  refine ⟨leaves.resolution.trans h.resolution, fun language => ?_, more, leaves.calls.trans hmore,
    fun call hcall source hm => stable leaves.files (hdone call hcall source hm), hcovered⟩
  rw [leaves.staged]
  exact h.units language

/-- A stage that is skipped or ends well accounts for more languages. -/
theorem step {hooks : List (Hook σ)} {scope : Option ScopeId} {stage : Stage σ} {rest : List (Stage σ)}
    {last : Context σ} {visits : List (Visit σ)} {others : List Language}
    (start : Accounted resolution calls languages done context)
    (quiet : EveryCall LeavesClasses hooks [])
    (stable : ∀ {old new source}, Spares IsWritten old new → done old source → done new source)
    (idle : ∀ context : Context σ, stage.isNeeded context = false →
      Accounted resolution calls languages done context → Accounted resolution calls others done context)
    (ran : ∀ start ended, Accounted resolution calls languages done start →
      stage.run start = .ok .ok ended → Accounted resolution calls others done ended)
    (h : Runs hooks scope (stage :: rest) context visits (.ok .ok last)) :
    ∃ scope next visits, Runs hooks scope rest next visits (.ok .ok last) ∧
      Accounted resolution calls others done next :=
  h.step leavesClasses_composes leavesClasses_noted leavesClasses_scopeFor quiet
    (fun leaves h => h.later stable leaves) (fun leaves h => h.later stable leaves) idle ran start

/-- One more call, after which its own sources are done with, and the others still are. -/
theorem called {call : ToolCall} (ended : Context σ)
    (h : Accounted resolution calls languages done start)
    (hresolution : ended.resolution = start.resolution) (hstaged : ended.staged = start.staged)
    (hcalls : ended.machine.calls = start.machine.calls ++ [call])
    (kept : ∀ source, done start.machine.environment source → done ended.machine.environment source)
    (fresh : ∀ source ∈ call.compiled, done ended.machine.environment source)
    {others : List Language}
    (covered : ∀ language ∈ others, language ∈ languages ∨
      ∀ path ∈ resolution.unitPaths language, path ∈ call.compiled) :
    Accounted resolution calls others done ended := by
  obtain ⟨more, hmore, hdone, hcovered⟩ := h.calls
  refine ⟨hresolution.trans h.resolution, fun language => ?_, more ++ [call], ?_, ?_, ?_⟩
  · rw [hstaged]
    exact h.units language
  · rw [hcalls, hmore, List.append_assoc]
  · intro other hother source hm
    rcases List.mem_append.1 hother with hother | hother
    · exact kept source (hdone other hother source hm)
    · rw [List.mem_singleton.1 hother] at hm
      exact fresh source hm
  · intro language hm path hpath
    rcases covered language hm with hold | hnew
    · obtain ⟨other, hother, hcompiled⟩ := hcovered language hold path hpath
      exact ⟨other, List.mem_append_left _ hother, hcompiled⟩
    · exact ⟨call, List.mem_append_right _ List.mem_cons_self, hnew path hpath⟩

/-- A language without sources is covered. -/
theorem skipped (h : Accounted resolution calls languages done context)
    (idle : (!(context.sourcesOf language).isEmpty) = false) :
    Accounted resolution calls (languages ++ [language]) done context := by
  obtain ⟨more, hmore, hdone, hcovered⟩ := h.calls
  refine ⟨h.resolution, h.units, more, hmore, hdone, fun other hm path hpath => ?_⟩
  rcases List.mem_append.1 hm with hm | hm
  · exact hcovered other hm path hpath
  · rw [List.mem_singleton.1 hm, ← h.units language] at hpath
    rw [Bool.not_eq_false', List.isEmpty_iff, Context.sourcesOf, List.append_eq_nil_iff] at idle
    rw [idle.1] at hpath
    exact absurd hpath List.not_mem_nil

/-- What a stage is handed is no class file. -/
theorem isPlain (h : Accounted resolution calls languages done context)
    (built : ∀ unit ∈ resolution.config.sources, unit.IsBuilt) {source : Path}
    (hm : source ∈ context.sourcesOf language)
    (readable : context.machine.environment.Readable source) :
    IsPlain context.machine.environment source := by
  obtain ⟨location, data, _, hlocate, -⟩ := readable_iff.1 readable
  refine ⟨location, data, hlocate, ?_⟩
  rcases List.mem_append.1 hm with hm | hm
  · rw [h.units] at hm
    obtain ⟨unit, hunit, rfl⟩ := List.mem_map.1 hm
    obtain ⟨hsource, hlanguage⟩ := List.mem_filter.1 hunit
    exact SourceUnit.not_isClassFile_of_built (built unit hsource) (of_decide_eq_true hlanguage) hlocate
  · intro hclass
    obtain ⟨before, name, rfl, hname⟩ := source_of_readable readable (mem_findSources_iff.1 hm).1
      (locate_file_iff.1 hlocate).1
    rw [isClassFile_not_source hclass] at hname
    cases hname

end Accounted

/-! ## The three stages -/

namespace Stage

variable {resolution : Resolution} {calls : List ToolCall} {start ended : Context σ}

/-- Annotation processing calls the front end for stubs, and compiles nothing. -/
theorem kapt_accounted {registration : Option (Registration σ)}
    (h : Accounted resolution calls [] (fun _ _ => False) start)
    (hrun : (Stage.kapt Rehearsal.frontend registration).run start = .ok .ok ended) :
    Accounted resolution calls [] (fun _ _ => False) ended := by
  cases registration with
  | none =>
    cases hrun
    exact h
  | some registration =>
    have hrun : runKapt Rehearsal.frontend registration start = .ok .ok ended := hrun
    rw [runKapt, get_bind] at hrun
    obtain ⟨sources, first, hsources, hrun⟩ := of_bind_ok hrun
    obtain ⟨_, second, hregister, hrun⟩ := of_bind_ok hrun
    -- Before the call only files are written.
    have files : ∀ {α : Type} {action : EnvironmentAction α} {value : α} {before after : Context σ},
        Context.onMachine (Machine.onEnvironment action) before = .ok value after →
        after.resolution = before.resolution ∧ after.staged = before.staged ∧
          after.machine.calls = before.machine.calls := by
      intro α action value before after hfiles
      obtain ⟨env, -, rfl⟩ := Context.onMachine_onEnvironment_eq_ok.1 hfiles
      exact ⟨rfl, rfl, rfl⟩
    obtain ⟨hresolution, hstaged, hcalls⟩ := files hsources
    obtain ⟨hresolution', hstaged', hcalls'⟩ := files hregister
    obtain ⟨last, hlast, rfl⟩ := Context.onMachine_eq_ok.1 hrun
    obtain ⟨called, hexec, rfl⟩ := PluginHost.withRegistration_ok hlast
    have hnoted := calls_of_exec (kaptArguments registration start sources)
      (PluginHost.holding registration second.machine)
    rw [hexec] at hnoted
    have hall : called.calls = start.machine.calls ++
        [.frontend (kaptArguments registration start sources)] := by
      rw [← hcalls, ← hcalls']
      exact hnoted
    refine Accounted.called { second with machine := called.clearRegistration } h
      (hresolution'.trans hresolution) (hstaged'.trans hstaged) hall (fun _ => id) ?_ ?_
    · exact fun _ hm => absurd hm List.not_mem_nil
    · exact fun _ hm => absurd hm List.not_mem_nil

/-- The Kotlin stage compiles the Kotlin units. -/
theorem kotlin_accounted (built : ∀ unit ∈ resolution.config.sources, unit.IsBuilt)
    (h : Accounted resolution calls [] (fun env source => Compiled env resolution.classesDir source) start)
    (hrun : (Stage.kotlin Rehearsal.frontend).run start = .ok .ok ended) :
    Accounted resolution calls [.kotlin]
      (fun env source => Compiled env resolution.classesDir source) ended := by
  have hrun : Context.onMachine (Rehearsal.frontend.exec (kotlinArguments start)) start =
      .ok .ok ended := hrun
  obtain ⟨last, hlast, rfl⟩ := Context.onMachine_eq_ok.1 hrun
  have hcalls := calls_of_exec (kotlinArguments start) start.machine
  rw [hlast] at hcalls
  obtain ⟨grows, compiled⟩ := compiled_of_exec rfl (fun source hm readable => h.isPlain built hm readable) hlast
  refine Accounted.called { start with machine := last } h rfl rfl hcalls (fun source done => done.later grows.spares) ?_ ?_
  · intro source hm
    have hdone := compiled source hm
    rwa [show (kotlinArguments start).destination = resolution.classesDir from
      congrArg Resolution.classesDir h.resolution] at hdone
  · intro language hm
    rw [List.mem_singleton.1 hm]
    refine .inr fun path hpath => ?_
    rw [← h.units] at hpath
    exact List.mem_append_left _ hpath

/-- The Java stage compiles the Java units. -/
theorem java_accounted {failure : Option ServiceError} {isModular : Bool}
    (suffixes : ∀ path ∈ resolution.unitPaths .java, ".java".toList <:+ path.text.toList)
    (h : Accounted resolution calls [.kotlin]
      (fun env source => Compiled env resolution.classesDir source) start)
    (hrun : (Stage.java (.embedded (Rehearsal.javaService failure) isModular)).run start =
      .ok .ok ended) :
    Accounted resolution calls [.kotlin, .java]
      (fun env source => Compiled env resolution.classesDir source) ended := by
  have hrun : Context.onMachine ((JavaStrategy.embedded (Rehearsal.javaService failure) isModular).compile
      start.resolution (start.sourcesOf .java)) start = .ok .ok ended := hrun
  obtain ⟨last, hlast, rfl⟩ := Context.onMachine_eq_ok.1 hrun
  rw [h.resolution] at hlast
  obtain ⟨hcalls, grows, compiled⟩ := compiled_of_embedded hlast
  refine Accounted.called { start with machine := last } h rfl rfl hcalls (fun source done => done.later grows.spares) compiled ?_
  intro language hm
  rcases List.mem_cons.1 hm with rfl | hm
  · exact .inl List.mem_cons_self
  · rw [List.mem_singleton.1 hm]
    refine .inr fun path hpath => ?_
    refine List.mem_map.2 ⟨path.text, List.mem_filter.2 ⟨?_, ?_⟩, rfl⟩
    · rw [← h.units] at hpath
      exact List.mem_append_right _ (List.mem_map_of_mem (List.mem_append_left _ hpath))
    · exact List.isSuffixOf_iff_suffix.2 (suffixes path hpath)

end Stage

/-! ## The call -/

/-- Staging gives files, and the path of a file ends in its name. -/
theorem SourceUnit.isName_of_stageAll {root : Path} {units : List SourceUnit}
    {staged : List StagedSource} {env after : Environment}
    (h : stageAll root units env = .ok staged after) :
    ∀ unit ∈ units, ∃ before last,
      (root.join unit.path).segments = before ++ [last] ∧ FileTree.IsName last := by
  induction units generalizing staged env after with
  | nil => exact fun _ hm => absurd hm List.not_mem_nil
  | cons unit rest ih =>
    obtain ⟨first, middle, hfirst, h⟩ := of_bind_ok h
    obtain ⟨others, last, hothers, -⟩ := of_bind_ok h
    obtain ⟨location, data, hfile, -⟩ := stage_file hfirst
    exact List.forall_mem_cons.2 ⟨(segments_of_file hfile).2, ih hothers⟩

/-- What a loader answers for a type that was compiled: its class, unless a directory of the class path
    has one; but names with characters that are foreign to identifiers are no names of classes. -/
structure LoadsType (result : CompilationResult) (env : Environment) (element : Element) : Prop where
  found : IsAlphanumeric element →
    (∀ directory ∈ result.classpath, env.isDirectory directory = true →
      env.isFile (elementPath directory element "class") = false) →
    (result.classLoader env).load env element.qualifiedName =
      .ok ⟨element.qualifiedName, elementPath result.outputDirectory element "class",
        ClassFile.header 52, 52⟩
  refused : ¬ IsAlphanumeric element →
    (result.classLoader env).load env element.qualifiedName =
        .error (.invalidName element.qualifiedName) ∧
      ∃ part ∈ nameParts element, ∃ c ∈ part.toList, Text.isForeign c = true

namespace Harness

variable {harness again : Harness σ} {machine after : Machine σ} {result : CompilationResult}
  {failure : Option ServiceError} {env : Environment} {resolution : Resolution}
  {staged : List StagedSource}

theorem suffix_of_prepare (built : ∀ unit ∈ resolution.config.sources, unit.IsBuilt)
    (h : harness.prepare machine.environment = .ok (resolution, staged) env) :
    ∀ path ∈ resolution.unitPaths .java, ".java".toList <:+ path.text.toList := by
  obtain ⟨_, _, -, -, hstaged⟩ := prepare_eq_ok.1 h
  intro path hm
  obtain ⟨unit, hunit, rfl⟩ := List.mem_map.1 hm
  obtain ⟨hsource, hlanguage⟩ := List.mem_filter.1 hunit
  obtain ⟨before, name, hsegments, hname⟩ := SourceUnit.isName_of_stageAll hstaged unit hsource
  exact SourceUnit.suffix_of_java (built unit hsource) (of_decide_eq_true hlanguage) hsegments hname

/-- In the end of a run that ends well every source of every compiler call is compiled. -/
theorem accounted_of_run (hjdk : resolution.config.jdkHome = none)
    (hfrontend : harness.frontend = Rehearsal.frontend)
    (hservice : harness.javaService = some (Rehearsal.javaService failure))
    (built : ∀ unit ∈ resolution.config.sources, unit.IsBuilt)
    (quiet : EveryCall LeavesClasses harness.hooks [])
    (hprepare : harness.prepare machine.environment = .ok (resolution, staged) env)
    {last : Context σ}
    (hrun : (harness.pipeline env resolution).run (harness.beginning machine env resolution staged) =
      .ok .ok last) :
    Accounted resolution machine.calls [.kotlin, .java]
      (fun env source => Compiled env resolution.classesDir source) last := by
  obtain ⟨visits, hruns⟩ := run_runs (harness.pipeline env resolution)
    (harness.beginning machine env resolution staged)
  rw [hrun] at hruns
  have hstages : (harness.pipeline env resolution).stages =
      [.kapt Rehearsal.frontend (harness.registration? resolution), .kotlin Rehearsal.frontend,
        .java (.embedded (Rehearsal.javaService failure) resolution.jdk.hostIsModular)] := by
    rw [pipeline, Pipeline.standard, JavaStrategy.select, hjdk, hfrontend, hservice]
    rfl
  rw [hstages] at hruns
  have stable : ∀ {old new : Environment} {source : Path}, Spares IsWritten old new →
      Compiled old resolution.classesDir source → Compiled new resolution.classesDir source :=
    fun spares compiled => compiled.later spares
  have first : Accounted resolution machine.calls [] (fun _ _ => False)
      (harness.beginning machine env resolution staged) :=
    ⟨rfl, (prepare_ok hprepare).2, [], (List.append_nil _).symm,
      fun _ hm => absurd hm List.not_mem_nil, fun _ hm => absurd hm List.not_mem_nil⟩
  obtain ⟨scope, second, visits, hruns, haccounted⟩ :=
    first.step quiet (fun _ => id) (fun _ _ => id) (fun _ _ => Stage.kapt_accounted) hruns
  -- Nothing was compiled by then.
  have second : Accounted resolution machine.calls []
      (fun env source => Compiled env resolution.classesDir source) second := by
    obtain ⟨more, hmore, hdone, hcovered⟩ := haccounted.calls
    exact ⟨haccounted.resolution, haccounted.units, more, hmore,
      fun call hcall source hm => (hdone call hcall source hm).elim, hcovered⟩
  obtain ⟨scope, third, visits, hruns, third⟩ := second.step quiet stable
    (fun _ idle h => h.skipped idle) (fun _ _ => Stage.kotlin_accounted built) hruns
  obtain ⟨scope, fourth, visits, hruns, fourth⟩ := third.step quiet stable
    (fun _ idle h => h.skipped idle) (fun _ _ => Stage.java_accounted (suffix_of_prepare built hprepare))
    hruns
  cases hruns
  exact fourth.later stable (leavesClasses_closeScope _ _)

/-- **What was compiled can be loaded.**  After a call that ends well with rehearsed compilers and without
    a JDK of its own, every source that a compiler was called with, and that are all units with a
    language at least, can be read; and of every type in it whose qualified name starts well, the
    loader of the result gives the class file of version 52 that was written for it, unless it finds
    one on the class path, if the name is alphanumeric; else it takes the name for none of a class.

    Hooks may do what they like but change files that are there, other than class files to be written
    anew, the staging, and the record of calls. -/
theorem types_loaded (hjdk : harness.config.jdkHome = none)
    (hfrontend : harness.frontend = Rehearsal.frontend)
    (hservice : harness.javaService = some (Rehearsal.javaService failure))
    (built : ∀ unit ∈ harness.config.sources, unit.IsBuilt)
    (quiet : EveryCall LeavesClasses harness.hooks [])
    (h : harness.compile machine = (.ok result, again, after)) (fine : result.exitCode = .ok) :
    ∃ resolution staged env more,
      harness.prepare machine.environment = .ok (resolution, staged) env ∧
      after.calls = machine.calls ++ more ∧
      (∀ language, ∀ path ∈ resolution.unitPaths language, ∃ call ∈ more, path ∈ call.compiled) ∧
      ∀ call ∈ more, ∀ source ∈ call.compiled, ∃ content,
        after.environment.readText source = .ok content ∧
        ∀ element ∈ typesOf source content, StartsWell element →
          LoadsType result after.environment element := by
  obtain ⟨resolution, staged, env, code, last, text, client, hprepare, hrun, -, rfl, rfl, rfl⟩ :=
    compile_eq_ok.1 h
  obtain rfl : code = .ok := fine
  have hconfig : resolution.config = harness.config := config_of_prepare hprepare
  rw [← hconfig] at hjdk built
  obtain ⟨more, hcalls, hcompiled, hcovered⟩ :=
    (accounted_of_run hjdk hfrontend hservice built quiet hprepare hrun).calls
  refine ⟨resolution, staged, env, more, hprepare, hcalls, fun language path hm => ?_, ?_⟩
  · exact hcovered language (by cases language <;> simp) path hm
  · intro call hcall source hm
    obtain ⟨-, content, hread, hclasses⟩ := hcompiled call hcall source hm
    refine ⟨content, hread, fun element helement starts => ?_⟩
    have named := isNamed_of_mem_typesOf helement
    refine ⟨fun alphanumeric elsewhere => ?_, fun foreign => ?_⟩
    · refine load_written named starts alphanumeric (fun directory hdirectory => ?_)
        (hclasses element helement)
      obtain ⟨hmember, hthere⟩ := List.mem_filter.1 hdirectory
      exact elsewhere directory hmember hthere
    · exact ⟨load_foreign named starts foreign _ _, exists_foreign named foreign⟩

/-! ## Two types of one source -/

/-- Two types; the name of the first has an accent as a character of its own. -/
def accentedUnit : SourceUnit := ⟨⟨"A.kt"⟩, "package p\nclass e\u0301\nclass F", some .kotlin⟩

/-- A rehearsal for these types. -/
def declaring (hooks : List (Hook Unit)) : Harness Unit :=
  { ofConfig { workingDir := some ⟨"/w"⟩, sources := [accentedUnit] } .discarding with
    frontend := Rehearsal.frontend
    javaService := some (Rehearsal.javaService none)
    host := .fixed [] none []
    hooks }

/-- A type of that source. -/
def declared (name : String) : Element := ⟨.classType, some "p", name, [], ⟨"/w/sources/A.kt"⟩⟩

/-- The class file of the second type. -/
def plainFile : Path := ⟨"/w/classes/p/F.class"⟩

/-- A hook that leaves nothing of that class file. -/
def emptying : Hook Unit where
  name := "emptying"
  after _ _ := Context.onMachine (Machine.onEnvironment (plainly (Environment.write plainFile [])))

/-- A call ends well, without class path, and a type is declared in a compiled source; its package has
    no empty part, and parts and name start with letters. -/
def Declares (harness : Harness Unit) (element : Element) (result : CompilationResult)
    (after : Machine Unit) : Prop :=
  (∃ again, harness.compile (.start default 5 ()) = (.ok result, again, after)) ∧
    result.exitCode = .ok ∧ result.classpath = [] ∧
    (∃ call ∈ after.calls, element.source ∈ call.compiled) ∧
    (∃ content, after.environment.readText element.source = .ok content ∧
      element ∈ typesOf element.source content) ∧
    StartsWell element

/-- What is computed to know so, with a check of the result. -/
def declaresWith (check : CompilationResult → Machine Unit → Bool) (harness : Harness Unit)
    (element : Element) : Bool :=
  match harness.compile (.start default 5 ()) with
  | (.ok result, _, after) =>
    result.exitCode.isOk && result.classpath.isEmpty &&
      (after.calls.any fun call => decide (element.source ∈ call.compiled)) &&
      (match after.environment.readText element.source with
        | .ok content => decide (element ∈ typesOf element.source content)
        | .error _ => false) &&
      decide (StartsWell element) && check result after
  | (.error _, _, _) => false

theorem of_declaresWith (check : CompilationResult → Machine Unit → Bool) (harness : Harness Unit)
    (element : Element) (h : declaresWith check harness element = true) :
    ∃ result after, Declares harness element result after ∧ check result after = true := by
  rw [declaresWith] at h
  split at h
  · next result again after hcompile =>
    simp only [Bool.and_eq_true, List.any_eq_true, decide_eq_true_eq] at h
    obtain ⟨⟨⟨⟨⟨hcode, hclasspath⟩, hcalls⟩, hcontent⟩, starts⟩, hcheck⟩ := h
    have fine : result.exitCode = .ok := by
      revert hcode
      cases result.exitCode <;> simp [ExitCode.isOk]
    refine ⟨result, after, ⟨⟨again, hcompile⟩, fine, List.isEmpty_iff.1 hclasspath, hcalls, ?_, starts⟩,
      hcheck⟩
    split at hcontent
    · next content hread => exact ⟨content, hread, of_decide_eq_true hcontent⟩
    · cases hcontent
  · cases h

/-- The second type is loaded, and the first one is not; nor would the second one be, if a hook had left
    nothing of its class file. -/
theorem accented_not_loaded :
    (∃ result after, Declares (declaring []) (declared "e\u0301") result after ∧
      (result.classLoader after.environment).load after.environment "p.e\u0301" =
        .error (.invalidName "p.e\u0301")) ∧
    ∃ result after, Declares (declaring [emptying]) (declared "F") result after ∧
      (result.classLoader after.environment).load after.environment "p.F" =
        .error (.badMagic plainFile) := by
  constructor
  · obtain ⟨result, after, declares, hload⟩ := of_declaresWith
      (fun result after => decide ((result.classLoader after.environment).load after.environment
        "p.e\u0301" = .error (.invalidName "p.e\u0301"))) (declaring []) (declared "e\u0301")
      (by decide +kernel)
    exact ⟨result, after, declares, of_decide_eq_true hload⟩
  · obtain ⟨result, after, declares, hload⟩ := of_declaresWith
      (fun result after => decide ((result.classLoader after.environment).load after.environment
        "p.F" = .error (.badMagic plainFile))) (declaring [emptying]) (declared "F")
      (by decide +kernel)
    exact ⟨result, after, declares, of_decide_eq_true hload⟩

theorem declared_loaded :
    (declaring []).config.jdkHome = none ∧
      (declaring []).frontend = Rehearsal.frontend ∧
      (declaring []).javaService = some (Rehearsal.javaService none) ∧
      (∀ unit ∈ (declaring []).config.sources, unit.IsBuilt) ∧
      EveryCall LeavesClasses (declaring []).hooks [] ∧
      ∃ result after, Declares (declaring []) (declared "F") result after ∧
        (result.classLoader after.environment).load after.environment "p.F" =
          .ok ⟨"p.F", plainFile, ClassFile.header 52, 52⟩ := by
  have built : ∀ unit ∈ (declaring []).config.sources, unit.IsBuilt := by
    intro unit hm
    rw [List.mem_singleton.1 hm]
    exact .inr ⟨.kotlin, "A.kt", accentedUnit.content, by decide +kernel⟩
  have quiet : EveryCall LeavesClasses (declaring []).hooks [] := .of_stages (List.forall_mem_nil _)
  obtain ⟨result, after, declares, hdirectory⟩ := of_declaresWith
    (fun result _ => decide (result.outputDirectory = ⟨"/w/classes"⟩)) (declaring []) (declared "F")
    (by decide +kernel)
  refine ⟨rfl, rfl, rfl, built, quiet, result, after, declares, ?_⟩
  obtain ⟨⟨again, hcompile⟩, fine, hclasspath, ⟨call, hcall, hsource⟩, ⟨content, hread, helement⟩,
    starts⟩ := declares
  obtain ⟨resolution, staged, env, more, -, hcalls, -, hloads⟩ :=
    types_loaded rfl rfl rfl built quiet hcompile fine
  have hmore : after.calls = more := hcalls
  obtain ⟨content', hread', htypes⟩ := hloads call (hmore ▸ hcall) _ hsource
  have hsame : content' = content := Except.ok.inj (hread'.symm.trans hread)
  have hfound := (htypes (declared "F") (hsame ▸ helement) starts).found (by decide +kernel)
    (by rw [hclasspath]; exact fun _ hm => absurd hm List.not_mem_nil)
  rw [of_decide_eq_true hdirectory] at hfound
  exact hfound

end Harness

end KotlinHarness
