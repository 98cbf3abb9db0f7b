/-
  What a compile call starts its stages with.

  Settling the configuration leaves it as it is (`resolve_ok`), and the directory for generated
  Kotlin sources that comes of it is one that can be named.  Staging gives a path for every unit, in
  the order of the units (`ofLanguage_stageAll`).  A call is prepared by both, with the directories of
  the workspace created in between (`prepare_eq_ok`).
-/
import KotlinHarness.Harness
import KotlinHarness.Proofs.Files.Listing

namespace KotlinHarness

/-! ## Resolution -/

namespace Resolution

theorem isEmpty_generatedKotlin {env : Environment} {config : Compilation} {workspace : Workspace}
    {directory : Path} (h : generatedKotlin env config workspace = .ok directory) :
    directory.isEmpty = false := by
  rw [generatedKotlin] at h
  split at h
  · cases h
    exact Path.isEmpty_div (Path.isEntry_of_plain (by decide))
  · next wanted _ =>
    split at h
    · next hdirectory =>
      cases h
      -- A path that leads to a directory is not empty.
      rw [Environment.isDirectory] at hdirectory
      split at hdirectory
      · next hlocate =>
        rw [Environment.locate] at hlocate
        split at hlocate
        · cases hlocate
        · next hfault => exact Environment.nonempty_of_pathFault hfault
      · cases hdirectory
    · cases h

/-- The resolution that is put together from what was found. -/
def assembled (config : Compilation) (workspace : Workspace) (hostClasspath : List Path) (jdk : Jdk)
    (toolsJar : Option Path) (generatedKotlinDir : Path) : Resolution :=
  let runtime := RuntimeJars.discover hostClasspath
  { config, workspace, hostClasspath, runtime, jdk, toolsJar, generatedKotlinDir
    classpath := ClassPath.common config.classpaths runtime hostClasspath
      ⟨config.inheritClasspath, config.noStdlib, config.noReflect⟩ }

/-- A configuration is settled when its JDK home is there, and with what is found besides. -/
theorem inWorkspace_iff {env : Environment} {config : Compilation} {host : Host} {needsKapt : Bool}
    {workspace : Workspace} {resolution : Resolution} :
    inWorkspace env config host needsKapt workspace = .ok resolution ↔
      checkJdkHome env config.jdkHome = .ok () ∧ ∃ toolsJar directory,
        (if needsKapt then
          neededToolsJar env (Jdk.probe host env config.jdkHome) (host.absoluteClasspath env)
          else .ok none) = .ok toolsJar ∧
        generatedKotlin env config workspace = .ok directory ∧
        resolution = assembled config workspace (host.absoluteClasspath env)
          (Jdk.probe host env config.jdkHome) toolsJar directory := by
  simp only [inWorkspace, bind, Except.bind, pure, Except.pure]
  generalize Jdk.probe host env config.jdkHome = jdk
  generalize host.absoluteClasspath env = entries
  rcases checkJdkHome env config.jdkHome with cause | checked
  · simp
  · rcases generatedKotlin env config workspace with cause | directory
    · cases needsKapt
      · simp
      · rcases neededToolsJar env jdk entries with cause | found <;> simp
    · cases needsKapt
      · simp [assembled, eq_comm]
      · rcases neededToolsJar env jdk entries with cause | found <;> simp [assembled, eq_comm]

theorem inWorkspace_ok {env : Environment} {config : Compilation} {host : Host} {needsKapt : Bool}
    {workspace : Workspace} {resolution : Resolution}
    (h : inWorkspace env config host needsKapt workspace = .ok resolution) :
    resolution.config = config ∧ resolution.generatedKotlinDir.isEmpty = false := by
  obtain ⟨-, toolsJar, directory, -, hdirectory, rfl⟩ := inWorkspace_iff.1 h
  exact ⟨rfl, isEmpty_generatedKotlin hdirectory⟩

/-- After the root is settled, nothing is changed any more. -/
theorem inWorkspace_of_resolve {config : Compilation} {host : Host} {needsKapt : Bool}
    {env after : Environment} {resolution : Resolution}
    (h : resolve config host needsKapt env = .ok resolution after) :
    ∃ path, root config env = .ok path after ∧
      inWorkspace after config host needsKapt ⟨path⟩ = .ok resolution := by
  rw [resolve] at h
  obtain ⟨path, middle, hroot, h⟩ := of_bind_ok h
  rw [get_bind] at h
  rcases hinside : inWorkspace middle config host needsKapt ⟨path⟩ with cause | settled
  · rw [hinside] at h
    cases h
  · rw [hinside] at h
    cases h
    exact ⟨path, hroot, hinside⟩

theorem resolve_ok {config : Compilation} {host : Host} {needsKapt : Bool}
    {env after : Environment} {resolution : Resolution}
    (h : resolve config host needsKapt env = .ok resolution after) :
    resolution.config = config ∧ resolution.generatedKotlinDir.isEmpty = false := by
  obtain ⟨path, -, hinside⟩ := inWorkspace_of_resolve h
  exact inWorkspace_ok hinside

end Resolution

/-! ## Directories -/

/-- Creating directories changes no file. -/
theorem Workspace.keeps_createAll (may : Location → FileData → Prop) (directories : List Path) :
    Keeps (Environment.Grows may) (createAll directories) := by
  induction directories with
  | nil => exact Environment.grows_composes.keeps_pure ()
  | cons directory rest ih =>
    refine Environment.grows_composes.keeps_bind (fun env => ?_) fun _ => ih
    have hgrows := Environment.keeps_makeDirectories may directory env
    rw [Environment.ensureDirectory, FileAction.during]
    rcases hmade : Environment.makeDirectories directory env with ⟨_, after⟩ | ⟨cause, after⟩ <;>
      rwa [hmade] at hgrows

/-! ## Staging -/

namespace SourceUnit

/-- Where the units of a language are staged, in order. -/
def pathsOf (root : Path) (language : Language) (units : List SourceUnit) : List Path :=
  (units.filter (·.language = some language)).map fun unit => root.join unit.path

theorem stage_ok {root : Path} {unit : SourceUnit} {source : StagedSource} {env after : Environment}
    (h : unit.stage root env = .ok source after) :
    source.path = root.join unit.path ∧ source.language = unit.language := by
  rw [stage] at h
  obtain ⟨_, _, -, hsource⟩ := of_bind_ok h
  cases hsource
  exact ⟨rfl, rfl⟩

theorem ofLanguage_stageAll {root : Path} {units : List SourceUnit} {staged : List StagedSource}
    {env after : Environment} (h : stageAll root units env = .ok staged after)
    (language : Language) : StagedSource.ofLanguage language staged = pathsOf root language units := by
  induction units generalizing staged env with
  | nil =>
    cases h
    rfl
  | cons unit rest ih =>
    rw [stageAll] at h
    obtain ⟨first, middle, hfirst, h⟩ := of_bind_ok h
    obtain ⟨others, last, hothers, hstaged⟩ := of_bind_ok h
    cases hstaged
    have hrest : StagedSource.ofLanguage language others = pathsOf root language rest := ih hothers
    obtain ⟨hpath, hlanguage⟩ := stage_ok hfirst
    rw [StagedSource.ofLanguage, pathsOf, List.filter_cons, List.filter_cons, hlanguage]
    split
    · rw [List.map_cons, List.map_cons, hpath]
      exact congrArg _ hrest
    · exact hrest

end SourceUnit

/-! ## Preparation -/

/-- All that happens before the stages of a call: the configuration is settled, the directories of the
    workspace are created, and the sources are staged. -/
theorem Harness.prepare_eq_ok {σ : Type} {harness : Harness σ} {env after : Environment}
    {resolution : Resolution} {staged : List StagedSource} :
    harness.prepare env = .ok (resolution, staged) after ↔
      ∃ settled created,
        Resolution.resolve harness.config harness.host harness.needsKapt env =
          .ok resolution settled ∧
        resolution.workspace.create settled = .ok () created ∧
        SourceUnit.stageAll resolution.workspace.sources resolution.config.sources created =
          .ok staged after := by
  rw [prepare, bind_eq, resolve]
  rcases Resolution.resolve harness.config harness.host harness.needsKapt env with
    ⟨found, settled⟩ | ⟨cause, settled⟩
  · simp only
    constructor
    · intro h
      obtain ⟨_, created, hcreate, h⟩ := of_bind_ok h
      obtain ⟨sources, last, hstage, hlast⟩ := of_bind_ok h
      cases hlast
      exact ⟨settled, created, rfl, hcreate, hstage⟩
    · rintro ⟨_, created, hsettled, hcreate, hstage⟩
      cases hsettled
      rw [bind_eq, hcreate]
      simp only
      rw [bind_eq, hstage]
      rfl
  · simp

end KotlinHarness
