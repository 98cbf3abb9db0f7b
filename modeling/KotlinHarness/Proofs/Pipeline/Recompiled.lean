/-
  Compiling twice in one workspace.

  Everything that a call leaves in its workspace is there when the same harness compiles again: what
  was staged, stubs, generated sources, class files, the listing of plugins.  With rehearsed compilers
  and scripted processors none of it makes a difference (`compile_again`): the second call gives the
  result that the first one gave, down to its messages and listings, and visits the same stages.

  The one thing that can tell the calls apart is an entry of the host's class path that only comes to
  be with the first call (`Lasting`).  Entries are looked up when a call gets to them, and the way to
  one may go up from a directory that the compilers create; `detour_found_later` is such a case.
-/
import KotlinHarness.Proofs.Pipeline.HandedSources
import KotlinHarness.Proofs.Pipeline.Reported
import KotlinHarness.Proofs.Pipeline.Reprocessed

namespace KotlinHarness

open Environment Pipeline

variable {σ : Type} {final old new : Environment}

/-- Both calls list the same files in the end. -/
theorem Environment.listFiles_retraced (h : Retraces final final new) {directory : Path}
    (hdirectory : final.isDirectory directory = true) :
    new.listFiles directory = final.listFiles directory := by
  obtain ⟨here, children, hlocate⟩ := isDirectory_iff.1 hdirectory
  obtain ⟨children', hlocate'⟩ := h.grows.locate_directory hlocate
  have same := filter_listFiles_eq (fun _ => true) hlocate' hlocate fun below _ => h.file_iff
  simpa using same

namespace Harness

variable {harness again : Harness σ} {machine after : Machine σ} {result : CompilationResult}

/-- A harness with rehearsed compilers, scripted processors and no hooks, in a workspace of its own. -/
structure IsRehearsal (harness : Harness σ) : Prop where
  workingDir : ∃ root, harness.config.workingDir = some root
  jdkHome : harness.config.jdkHome = none
  processors : ∀ processor ∈ harness.processors, processor.IsScripted
  frontend : harness.frontend = Rehearsal.frontend
  javaService : harness.javaService = some (Rehearsal.javaService none)
  host : harness.host.Constant
  hooks : harness.hooks = []
  sink : harness.sink.Steady

theorem config_of_prepare {env : Environment} {resolution : Resolution} {staged : List StagedSource}
    (h : harness.prepare old = .ok (resolution, staged) env) : resolution.config = harness.config := by
  obtain ⟨_, _, hresolve, -⟩ := prepare_eq_ok.1 h
  exact (Resolution.resolve_ok hresolve).1

theorem registration?_eq {resolution : Resolution} {registration : Registration σ}
    (h : harness.registration? resolution = some registration) :
    registration = Registration.ofResolution harness.processors resolution := by
  rw [registration?] at h
  split at h
  · exact (Option.some.inj h).symm
  · cases h

/-- What runs in a rehearsal. -/
theorem IsRehearsal.run_eq (rehearsal : harness.IsRehearsal) (env : Environment)
    {resolution : Resolution} (hconfig : resolution.config = harness.config) :
    (harness.pipeline env resolution).run = runFrom [] none
      (rehearsedStages (harness.registration? resolution) resolution.jdk.hostIsModular) := by
  rw [Pipeline.run, pipeline, Pipeline.standard, rehearsal.frontend, rehearsal.javaService,
    rehearsal.hooks, JavaStrategy.select, hconfig, rehearsal.jdkHome]
  rfl

/-- Once both calls are prepared, their stages start alongside each other. -/
theorem alongside_beginning {env : Environment} {later : Machine σ} {resolution : Resolution}
    {staged staged' : List StagedSource} (prepared : Prepared resolution env)
    (retraces : Retraces final env new) (steady : harness.sink.Steady)
    (hlimit : later.roundLimit = machine.roundLimit)
    (hstaged : ∀ language, StagedSource.ofLanguage language staged' =
      StagedSource.ofLanguage language staged)
    (settled : ∀ source ∈ staged, Settled env new source.path) :
    Context.Alongside final (harness.beginning machine env resolution staged)
      (harness.beginning later new resolution staged') := by
  refine ⟨⟨retraces, rfl, steady, hlimit, fun _ hnone => by cases hnone⟩, rfl, rfl, hstaged,
    fun language source hm => ?_, ?_⟩
  · obtain ⟨unit, hunit, rfl⟩ := List.mem_map.1 hm
    exact settled unit (List.mem_of_mem_filter hunit)
  · have hthere := prepared.directories
    simp only [Workspace.directories, List.forall_mem_cons] at hthere
    obtain ⟨-, hclasses, hjava, -⟩ := hthere
    simpa [List.forall_mem_cons] using ⟨hclasses, hjava, prepared.generatedKotlin⟩

/-- Compiling again in the same workspace gives the same result, and the same stages are visited. -/
theorem compile_again (rehearsal : harness.IsRehearsal) (named : machine.environment.WellNamed)
    (h : harness.compile machine = (.ok result, again, after))
    (lasting : ∀ archive,
      (RuntimeJars.discover (harness.host.absoluteClasspath machine.environment)).kaptPlugin =
        some archive → Lasting after.environment archive) :
    ∃ last, again.compile after = (.ok result, again, last) := by
  obtain ⟨resolution, staged, env, code, ended, text, client, hprepare, hrun, hfinish, rfl, rfl,
    rfl⟩ := compile_eq_ok.1 h
  obtain ⟨root, hroot⟩ := rehearsal.workingDir
  have hconfig : resolution.config = harness.config := config_of_prepare hprepare
  rw [rehearsal.run_eq env hconfig] at hrun
  have grows : OnMachine (Machine.GrowsBy fun _ _ => True)
      (harness.beginning machine env resolution staged) ended :=
    (keeps_rehearsedStages (fun registration hregistration => by
      rw [registration?_eq hregistration]
      exact rehearsal.processors) none).of_ok hrun
  -- The second call is prepared alike.
  obtain ⟨prepared, hruntime, staged', new, hprepare', retraces, hstaged, settled⟩ :=
    prepare_again rehearsal.host rehearsal.jdkHome hroot named hprepare grows.grows
  have alongside : Context.Alongside ended.machine.environment
      (harness.beginning machine env resolution staged)
      (harness.beginning { ended.machine with client, messages := machine.messages } new resolution
        staged') :=
    alongside_beginning prepared retraces rehearsal.sink grows.roundLimit hstaged settled
  obtain ⟨ended', hrun', alongside'⟩ := stages_again rehearsal.processors alongside prepared
    (fun archive harchive => lasting archive (by rw [← hruntime]; exact harchive))
    (fun registration hregistration => registration?_eq hregistration) hrun rfl
  -- The stream ends with the same text.
  have hsame := MessageStream.finish_steady alongside'.abreast.steady ended.machine.client
    ended'.machine.client
  rw [hfinish] at hsame
  rcases hfinish' : ended.machine.messages.finish ended'.machine.client with ⟨answer, client'⟩
  rw [hfinish'] at hsame
  cases hsame
  have hlists : ∀ directory ∈ [resolution.classesDir, resolution.workspace.generatedJava,
      resolution.generatedKotlinDir],
      ended'.machine.environment.listFiles directory =
        ended.machine.environment.listFiles directory := fun directory hm =>
    listFiles_retraced alongside'.abreast.retraces
      (grows.grows.isDirectory (alongside.directories directory hm))
  refine ⟨_, compile_eq_ok.2 ⟨resolution, staged', new, code, ended', text, client', hprepare', ?_,
    ?_, ?_, ?_, rfl⟩⟩
  · have hrunning := rehearsal.run_eq new hconfig
    exact (congrFun hrunning _).trans hrun'
  · rw [alongside'.abreast.messages]
    exact hfinish'
  · simp only [List.forall_mem_cons] at hlists
    rw [CompilationResult.take, CompilationResult.take, hlists.1, hlists.2.1, hlists.2.2.1]
  · rw [alongside'.records]

/-! ## A rehearsal -/

/-- Creates an empty Kotlin source in the final round. -/
def closingScript (round : Round) : Script :=
  if round.isOver then .create .kotlin "p.G" "" fun _ => .done else .done

def closing : Processor Unit := ⟨"closing", fun round => (closingScript round).perform⟩

theorem closing_isScripted : closing.IsScripted := by
  refine ⟨fun round _ => closingScript round, fun round _ => ?_, fun _ _ => rfl⟩
  show (closingScript round).IsPlain
  rw [closingScript]
  split
  · exact ⟨by unfold Path.IsSegment; decide, fun _ => trivial⟩
  · trivial

/-- A rehearsal whose host has an archive of the processing plugin on its class path. -/
def rehearsing (units : List SourceUnit) (archive : Path) : Harness Unit :=
  { ofConfig { workingDir := some ⟨"/w"⟩, sources := units } .discarding with
    processors := [closing]
    frontend := Rehearsal.frontend
    javaService := some (Rehearsal.javaService none)
    host := .fixed [archive] none [] }

theorem rehearsing_isRehearsal (units : List SourceUnit) (archive : Path) :
    (rehearsing units archive).IsRehearsal where
  workingDir := ⟨⟨"/w"⟩, rfl⟩
  jdkHome := rfl
  processors := fun processor hm => by
    rw [List.mem_singleton.1 hm]
    exact closing_isScripted
  frontend := rfl
  javaService := rfl
  host := Host.constant_fixed _ _ _
  hooks := rfl
  sink := ⟨fun _ _ _ => rfl, fun _ _ => rfl⟩

/-- The host's archive of the processing plugin. -/
def hostArchive : Path := ⟨"/lib/kotlin-annotation-processing.jar"⟩

theorem rehearsed_again :
    (rehearsing [classUnit] hostArchive).IsRehearsal ∧
      (Machine.start default 5 ()).environment.WellNamed ∧
      (∀ archive, (RuntimeJars.discover ((rehearsing [classUnit] hostArchive).host.absoluteClasspath
        default)).kaptPlugin = some archive → ".." ∉ archive.segments) ∧
      ∃ result again after,
        (rehearsing [classUnit] hostArchive).compile (.start default 5 ()) =
          (.ok result, again, after) ∧
        ∃ last, again.compile after = (.ok result, again, last) := by
  have named : (Machine.start default 5 ()).environment.WellNamed :=
    ⟨properNames_of_files fun _ hm => absurd hm List.not_mem_nil, fun _ hm => absurd hm List.not_mem_nil⟩
  have straight : ∀ archive, (RuntimeJars.discover
      ((rehearsing [classUnit] hostArchive).host.absoluteClasspath default)).kaptPlugin =
        some archive → ".." ∉ archive.segments := by
    have hplugin : (RuntimeJars.discover ((rehearsing [classUnit] hostArchive).host.absoluteClasspath
        default)).kaptPlugin.all (fun archive => decide (".." ∉ archive.segments)) = true := by
      decide +kernel
    intro archive harchive
    rw [harchive] at hplugin
    exact of_decide_eq_true hplugin
  have succeeds : ((rehearsing [classUnit] hostArchive).compile (.start default 5 ())).1.isOk =
      true := by decide +kernel
  rcases hcompile : (rehearsing [classUnit] hostArchive).compile (.start default 5 ()) with
    ⟨cause | result, again, after⟩
  · rw [hcompile] at succeeds
    cases succeeds
  · exact ⟨rehearsing_isRehearsal _ _, named, straight, result, again, after, rfl,
      compile_again (rehearsing_isRehearsal _ _) named hcompile
        fun archive harchive => .inl (straight archive harchive)⟩

/-- A way to an archive that goes up from a directory for generated sources. -/
def detour : Path := ⟨"/w/kapt/kotlinGenerated/p/../../../k/kotlin-annotation-processing.jar"⟩

/-- A workspace with a directory in the place of an archive, and a listing that is no text. -/
def detourEnvironment : Environment :=
  let archive := ["w", "k", "kotlin-annotation-processing.jar"]
  { (default : Environment) with
    files := ((((((FileTree.empty.insert ["w"] .directory).insert ["w", "k"] .directory).insert
      archive .directory).insert (archive ++ ["META-INF"]) .directory).insert
      (archive ++ ["META-INF", "services"]) .directory).insert
      (archive ++ ["META-INF", "services", Plugin.interface]) (.file ⟨[0xFF], .plain⟩)) }

/-- The first call gives a result, and creates the directory from which the way to the archive goes
    up; the second call finds the listing, and fails. -/
theorem detour_found_later :
    (rehearsing [] detour).IsRehearsal ∧ detourEnvironment.WellNamed ∧
      ∃ result again after,
        (rehearsing [] detour).compile (.start detourEnvironment 5 ()) = (.ok result, again, after) ∧
        ∀ result' again' last, again.compile after ≠ (.ok result', again', last) := by
  have named : detourEnvironment.WellNamed :=
    ⟨properNames_of_files (by decide +kernel), fun _ hm => absurd hm List.not_mem_nil⟩
  have differs :
      ((rehearsing [] detour).compile (.start detourEnvironment 5 ())).1.isOk = true ∧
        (((rehearsing [] detour).compile (.start detourEnvironment 5 ())).2.1.compile
          ((rehearsing [] detour).compile (.start detourEnvironment 5 ())).2.2).1.isOk = false := by
    decide +kernel
  rcases hcompile : (rehearsing [] detour).compile (.start detourEnvironment 5 ()) with
    ⟨cause | result, again, after⟩
  · rw [hcompile] at differs
    cases differs.1
  · refine ⟨rehearsing_isRehearsal _ _, named, result, again, after, rfl, ?_⟩
    intro result' again' last hagain
    rw [hcompile] at differs
    simp only [hagain] at differs
    cases differs.2

end Harness

end KotlinHarness
