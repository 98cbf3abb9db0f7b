/-
  Preparing a compile call in the workspace of an earlier one.

  A second call settles the configuration to the same: what the first one found to be a file or a
  directory still is one, and a working directory is taken as it is (`resolve_again`).  Its
  directories are there already (`createAll_there`), and what the first call staged it stages again,
  so that every staged file holds the same in both calls from then on (`stageAll_again`).

    * `Prepared`        what a call can rely on once it is prepared
    * `prepare_again`   that a second call is prepared alike
-/
import KotlinHarness.Proofs.Files.Footprint
import KotlinHarness.Proofs.Processing.Replayed
import KotlinHarness.Proofs.Workspace.Restaged

namespace KotlinHarness

open Environment

variable {env final old new old' : Environment} {may : Location → FileData → Prop}

/-! ## Resolution -/

/-- What is asked about the host does not depend on the files. -/
structure Host.Constant (host : Host) : Prop where
  classpath : ∀ env env', host.classpath env' = host.classpath env
  jdkHome : ∀ env env', host.jdkHome env' = host.jdkHome env
  jdkVersion : ∀ env env', host.jdkVersion env' = host.jdkVersion env

theorem Host.constant_fixed (classpath : List Path) (jdkHome : Option Path)
    (jdks : List (Path × JavaVersion)) : (Host.fixed classpath jdkHome jdks).Constant :=
  ⟨fun _ _ => rfl, fun _ _ => rfl, fun _ _ => rfl⟩

theorem Host.Constant.absoluteClasspath {host : Host} (constant : host.Constant)
    (grows : Grows may old new) : host.absoluteClasspath new = host.absoluteClasspath old := by
  have hdirectory : new.currentDirectory = old.currentDirectory := by
    rw [currentDirectory, currentDirectory, grows.workingDirectory]
  rw [Host.absoluteClasspath, Host.absoluteClasspath, hdirectory, constant.classpath old new]

namespace Resolution

variable {config : Compilation} {host : Host} {needsKapt : Bool} {workspace : Workspace}
  {resolution : Resolution}

/-- What a resolution found in the files. -/
structure Settles (host : Host) (workspace : Workspace) (resolution : Resolution)
    (env : Environment) : Prop where
  place : resolution.workspace = workspace
  runtime : resolution.runtime = RuntimeJars.discover (host.absoluteClasspath env)
  toolsJar : ∀ jar, resolution.toolsJar = some jar → env.isFile jar = true
  generatedKotlin : resolution.generatedKotlinDir = workspace.generatedKotlin ∨
    env.isDirectory resolution.generatedKotlinDir = true

/-- A compiler archive that is added is a file, and is added again. -/
theorem neededToolsJar_again (grows : Grows may old new) {jdk : Jdk} {entries : List Path}
    {found : Option Path} (h : neededToolsJar old jdk entries = .ok found) :
    neededToolsJar new jdk entries = .ok found ∧ ∀ jar, found = some jar → old.isFile jar = true := by
  rw [neededToolsJar] at h ⊢
  by_cases hneeded : (!jdk.isPreModular || hasToolsJar entries) = true
  · rw [if_pos hneeded] at h ⊢
    cases h
    exact ⟨rfl, fun _ hjar => by cases hjar⟩
  · rw [if_neg hneeded] at h ⊢
    -- There is none on the class path, so it was found at the home of the JDK.
    have hnone : entries.find? isToolsJar = none := by
      rw [Bool.or_eq_true, not_or, hasToolsJar, List.any_eq_true] at hneeded
      exact List.find?_eq_none.2 fun entry hm hjar => hneeded.2 ⟨entry, hm, hjar⟩
    have hfound : ∀ env : Environment, toolsJar? env jdk.effectiveHome entries =
        (jdk.effectiveHome.map (· / "lib" / toolsJarName)).filter env.isFile := by
      intro env
      rw [toolsJar?, hnone]
      cases (jdk.effectiveHome.map (· / "lib" / toolsJarName)).filter env.isFile <;> rfl
    rw [hfound] at h ⊢
    rcases hfirst : (jdk.effectiveHome.map (· / "lib" / toolsJarName)).filter old.isFile with
      - | jar
    · rw [hfirst] at h
      cases h
    · rw [hfirst] at h
      cases h
      obtain ⟨hjar, hfile⟩ := Option.filter_eq_some_iff.1 hfirst
      rw [Option.filter_eq_some_iff.2 ⟨hjar, grows.isFile hfile⟩]
      refine ⟨rfl, fun other hother => ?_⟩
      cases hother
      exact hfile

theorem generatedKotlin_again (grows : Grows may old new) {directory : Path}
    (h : generatedKotlin old config workspace = .ok directory) :
    generatedKotlin new config workspace = .ok directory ∧
      (directory = workspace.generatedKotlin ∨ old.isDirectory directory = true) := by
  rw [generatedKotlin] at h ⊢
  split at h
  · cases h
    exact ⟨rfl, .inl rfl⟩
  · split at h
    · next hthere =>
      cases h
      rw [if_pos (grows.isDirectory hthere)]
      exact ⟨rfl, .inr hthere⟩
    · cases h

theorem inWorkspace_again (constant : host.Constant) (grows : Grows may old new)
    (hhome : config.jdkHome = none)
    (h : inWorkspace old config host needsKapt workspace = .ok resolution) :
    inWorkspace new config host needsKapt workspace = .ok resolution ∧
      Settles host workspace resolution old := by
  obtain ⟨-, found, directory, htools, hkotlin, rfl⟩ := inWorkspace_iff.1 h
  obtain ⟨hkotlin', hthere⟩ := generatedKotlin_again grows hkotlin
  have hjdk : Jdk.probe host new config.jdkHome = Jdk.probe host old config.jdkHome := by
    unfold Jdk.probe
    rw [constant.jdkHome old new, constant.jdkVersion old new]
  have hclasspath := constant.absoluteClasspath grows
  have htools' : (if needsKapt then neededToolsJar new (Jdk.probe host old config.jdkHome)
      (host.absoluteClasspath old) else .ok none) = .ok found ∧
      ∀ jar, found = some jar → old.isFile jar = true := by
    split at htools
    · next hkapt =>
      rw [if_pos hkapt]
      exact neededToolsJar_again grows htools
    · next hkapt =>
      cases htools
      rw [if_neg hkapt]
      exact ⟨rfl, fun _ hjar => by cases hjar⟩
  refine ⟨inWorkspace_iff.2 ⟨?_, found, directory, ?_, hkotlin', ?_⟩, rfl, rfl, htools'.2, hthere⟩
  · rw [hhome]
    rfl
  · rw [hjdk, hclasspath]
    exact htools'.1
  · rw [hjdk, hclasspath]

/-- With a working directory, resolution changes nothing. -/
theorem resolve_eq {root : Path} (hroot : config.workingDir = some root) (env : Environment) :
    resolve config host needsKapt env =
      match inWorkspace env config host needsKapt ⟨root⟩ with
      | .ok resolution => .ok resolution env
      | .error cause => .error cause env := by
  rw [resolve, Resolution.root, hroot]
  show (match inWorkspace env config host needsKapt ⟨root⟩ with
    | .ok resolution => pure resolution
    | .error cause => throw cause : EStateM ConfigError Environment Resolution) env = _
  cases inWorkspace env config host needsKapt ⟨root⟩ <;> rfl

theorem resolve_state {root : Path} (hroot : config.workingDir = some root)
    (h : resolve config host needsKapt old = .ok resolution old') : old' = old := by
  rw [resolve_eq hroot] at h
  split at h <;> cases h
  rfl

/-- A configuration with a working directory and without a JDK home is settled to the same again. -/
theorem resolve_again (constant : host.Constant) (grows : Grows may old new)
    (hhome : config.jdkHome = none) {root : Path} (hroot : config.workingDir = some root)
    (h : resolve config host needsKapt old = .ok resolution old') :
    resolve config host needsKapt new = .ok resolution new ∧
      Settles host ⟨root⟩ resolution old := by
  rw [resolve_eq hroot] at h ⊢
  rcases hinside : inWorkspace old config host needsKapt ⟨root⟩ with cause | settled
  · rw [hinside] at h
    cases h
  · rw [hinside] at h
    cases h
    obtain ⟨hagain, settles⟩ := inWorkspace_again constant grows hhome hinside
    rw [hagain]
    exact ⟨rfl, settles⟩

end Resolution

/-! ## Directories -/

namespace Workspace

/-- Directories that were created are there. -/
theorem isDirectory_of_createAll {directories : List Path}
    (hnames : ∀ directory ∈ directories,
      directory.isEmpty = false ∧ directory.endsWithSlash = false)
    (h : createAll directories old = .ok () new) :
    ∀ directory ∈ directories, new.isDirectory directory = true := by
  induction directories generalizing old with
  | nil => exact fun _ hm => absurd hm List.not_mem_nil
  | cons directory rest ih =>
    rw [createAll] at h
    obtain ⟨_, middle, hmade, hrest⟩ := of_bind_ok h
    obtain ⟨nonempty, hslash⟩ := hnames directory List.mem_cons_self
    have hthere := isDirectory_of_makeDirectoriesUpTo nonempty hslash (during_ok hmade)
    refine List.forall_mem_cons.2 ⟨?_, ih (fun other hm => hnames other (List.mem_cons_of_mem _ hm))
      hrest⟩
    exact ((keeps_createAll (fun _ _ => True) rest).of_ok hrest).isDirectory hthere

/-- Directories that are there are not created. -/
theorem createAll_there {directories : List Path}
    (hthere : ∀ directory ∈ directories, env.isDirectory directory = true) :
    createAll directories env = .ok () env := by
  induction directories with
  | nil => rfl
  | cons directory rest ih =>
    rw [createAll, bind_eq, ensureDirectory, during_eq,
      makeDirectories_of_isDirectory (hthere directory List.mem_cons_self)]
    exact ih fun other hm => hthere other (List.mem_cons_of_mem _ hm)

/-- The directories of a workspace have names of their own. -/
theorem names_of_directories (workspace : Workspace) :
    ∀ directory ∈ workspace.directories,
      directory.isEmpty = false ∧ directory.endsWithSlash = false := by
  have hname : ∀ (p : Path) {name : String}, Path.IsEntry name →
      (p / name).isEmpty = false ∧ (p / name).endsWithSlash = false :=
    fun _ _ h => ⟨Path.isEmpty_div h, Path.endsWithSlash_div h⟩
  intro directory hm
  simp only [directories, List.mem_cons, List.not_mem_nil, or_false] at hm
  rcases hm with rfl | rfl | rfl | rfl | rfl | rfl <;>
    exact hname _ (Path.isEntry_of_plain (by decide))

end Workspace

/-! ## Staging -/

namespace SourceUnit

variable {root : Path} {unit : SourceUnit} {units : List SourceUnit} {source : StagedSource}
  {staged : List StagedSource}

theorem during_ok_of {α : Type} {undertaking : Undertaking} {action : EnvironmentAction α}
    {value : α} (h : action env = .ok value new) : action.during undertaking env = .ok value new := by
  rw [EnvironmentAction.during, h]

theorem keeps_stage (root : Path) (unit : SourceUnit) : Keeps Reaches (unit.stage root) := by
  refine reaches_composes.keeps_bind (fun env => ?_) fun _ => reaches_composes.keeps_pure _
  have hreaches := keeps_deposit .ifChanged (root.join unit.path) unit.content env
  rw [EnvironmentAction.during]
  rcases hdeposit : deposit .ifChanged (root.join unit.path) unit.content env with
    ⟨done, after⟩ | ⟨cause, after⟩ <;> rwa [hdeposit] at hreaches

theorem keeps_stageAll (root : Path) (units : List SourceUnit) :
    Keeps Reaches (stageAll root units) := by
  induction units with
  | nil => exact reaches_composes.keeps_pure _
  | cons unit rest ih =>
    exact reaches_composes.keeps_bind (keeps_stage root unit) fun _ =>
      reaches_composes.keeps_bind ih fun _ => reaches_composes.keeps_pure _

theorem stage_again (h : Retraces final old new) (hstage : unit.stage root old = .ok source old')
    (below : Grows (fun _ _ => True) old' final) :
    ∃ source' new', unit.stage root new = .ok source' new' ∧ Moves final old new old' new' ∧
      Settled old' new' source.path := by
  rw [stage] at hstage
  obtain ⟨done, middle, hdeposit, hsource⟩ := of_bind_ok hstage
  cases hsource
  obtain ⟨done', new', hagain, moves, settled⟩ := h.deposit (environmentDuring_ok hdeposit) below
  refine ⟨⟨root.join unit.path, unit.language, done'⟩, new', ?_, moves, settled⟩
  rw [stage, bind_eq, during_ok_of hagain]
  rfl

/-- Units that were staged are staged again, and their files hold the same afterwards. -/
theorem stageAll_again (h : Retraces final old new)
    (hstage : stageAll root units old = .ok staged old')
    (below : Grows (fun _ _ => True) old' final) :
    ∃ staged' new', stageAll root units new = .ok staged' new' ∧ Moves final old new old' new' ∧
      ∀ source ∈ staged, Settled old' new' source.path := by
  induction units generalizing old new staged with
  | nil =>
    cases hstage
    exact ⟨[], new, rfl, .refl h, fun _ hm => absurd hm List.not_mem_nil⟩
  | cons unit rest ih =>
    obtain ⟨source, others, middle, rfl, hfirst, hothers⟩ := stageAll_cons hstage
    obtain ⟨source', middle', hfirst', moves, settled⟩ :=
      stage_again h hfirst ((stageAll_grows hothers).trans below)
    obtain ⟨others', new', hothers', moves', settled'⟩ := ih moves.retraces hothers
    refine ⟨source' :: others', new', ?_, moves.trans moves', ?_⟩
    · rw [stageAll, bind_eq, hfirst']
      simp only
      rw [bind_eq, hothers']
      rfl
    · exact List.forall_mem_cons.2 ⟨moves'.settled _ settled, settled'⟩

end SourceUnit

/-! ## Preparing -/

/-- What a call can rely on once it is prepared. -/
structure Prepared (resolution : Resolution) (env : Environment) : Prop where
  named : env.WellNamed
  directories : ∀ directory ∈ resolution.workspace.directories, env.isDirectory directory = true
  generatedKotlin : env.isDirectory resolution.generatedKotlinDir = true
  toolsJar : ∀ jar, resolution.toolsJar = some jar → env.isFile jar = true

namespace Harness

variable {σ : Type} {harness : Harness σ} {resolution : Resolution} {staged : List StagedSource}
  {root : Path}

/-- A call that was prepared is prepared again. -/
theorem prepare_again (constant : harness.host.Constant) (hhome : harness.config.jdkHome = none)
    (hroot : harness.config.workingDir = some root) (named : env.WellNamed)
    (h : harness.prepare env = .ok (resolution, staged) old)
    (below : Grows (fun _ _ => True) old final) :
    Prepared resolution old ∧
      resolution.runtime = RuntimeJars.discover (harness.host.absoluteClasspath env) ∧
      ∃ staged' new, harness.prepare final = .ok (resolution, staged') new ∧
        Retraces final old new ∧
        (∀ language, StagedSource.ofLanguage language staged' =
          StagedSource.ofLanguage language staged) ∧
        ∀ source ∈ staged, Settled old new source.path := by
  obtain ⟨settled, created, hsettled, hcreate, hstage⟩ := prepare_eq_ok.1 h
  have hstaged : Reaches created old := (SourceUnit.keeps_stageAll _ _).of_ok hstage
  have hcreated := (Workspace.keeps_createAll (fun _ _ => False) _).of_ok hcreate
  obtain rfl := Resolution.resolve_state hroot hsettled
  have all : Grows (fun _ _ => True) settled created := hcreated.mono fun _ _ hmay => hmay.elim
  have later := hstaged.grows.trans below
  obtain ⟨hagain, settles⟩ :=
    Resolution.resolve_again constant (all.trans later) hhome hroot hsettled
  have hthere := Workspace.isDirectory_of_createAll resolution.workspace.names_of_directories hcreate
  have moves := (retraces_start (all.trans later)).directories hcreated later
  obtain ⟨staged', new, hstage', moves', settled'⟩ :=
    SourceUnit.stageAll_again moves.retraces hstage below
  refine ⟨⟨?_, fun directory hm => hstaged.grows.isDirectory (hthere directory hm), ?_, ?_⟩,
    settles.runtime, staged', new, ?_, moves'.retraces, fun language => ?_, settled'⟩
  · refine hstaged.wellNamed (Reaches.wellNamed ?_ named)
    exact hcreated.mono fun _ _ hmay => hmay.elim
  · rcases settles.generatedKotlin with heq | hdirectory
    · rw [heq, ← settles.place]
      exact hstaged.grows.isDirectory (hthere _ (by simp [Workspace.directories]))
    · exact (all.trans hstaged.grows).isDirectory hdirectory
  · exact fun jar hjar => (all.trans hstaged.grows).isFile (settles.toolsJar jar hjar)
  · -- The directories of the workspace are there, so none is created.
    refine prepare_eq_ok.2 ⟨final, final, hagain, ?_, hstage'⟩
    exact Workspace.createAll_there fun directory hm => later.isDirectory (hthere directory hm)
  · rw [SourceUnit.ofLanguage_stageAll hstage', SourceUnit.ofLanguage_stageAll hstage]

end Harness

end KotlinHarness
