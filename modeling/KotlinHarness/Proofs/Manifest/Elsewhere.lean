/-
  One manifest, opened from two working directories.

  A manifest that is opened through an absolute path has an absolute directory, and the options that
  are paths are read from there.  So are the source roots.  Nothing that is read through absolute
  paths depends on where the process runs (`locate_fixed`), hence the configuration is the same from
  everywhere (`compilation_elsewhere`), and so is what resolution makes of it (`settledAlike`).

  One path is not read from the directory of the manifest: the directory of generated Kotlin sources
  stands among the options for annotation processors, as text, and is taken as it is written.  For
  the theorem it has to be left out or absolute; with a relative one the same manifest is accepted
  from one directory and refused from another (`generated_read_elsewhere`).
-/
import KotlinHarness.Manifest.Manifest
import KotlinHarness.Proofs.Files.Rewriting
import KotlinHarness.Proofs.Toolchain.ChildPaths
import KotlinHarness.Proofs.Workspace.Recreated

namespace KotlinHarness

/-! ## Reading from elsewhere -/

namespace Environment

variable {p : Path}

/-- The same files and variables, seen from another working directory. -/
def elsewhere (env : Environment) (location : Location) : Environment :=
  { env with workingDirectory := location }

theorem locate_elsewhere (h : p.IsFixed) (env : Environment) (location : Location) :
    (env.elsewhere location).locate p = env.locate p :=
  locate_fixed h rfl

theorem isDirectory_elsewhere (h : p.IsFixed) (env : Environment) (location : Location) :
    (env.elsewhere location).isDirectory p = env.isDirectory p := by
  rw [isDirectory, isDirectory, locate_elsewhere h]

theorem isFile_elsewhere (h : p.IsFixed) (env : Environment) (location : Location) :
    (env.elsewhere location).isFile p = env.isFile p := by
  rw [isFile, isFile, locate_elsewhere h]

theorem namesIn_elsewhere (h : p.IsFixed) (env : Environment) (location : Location) :
    (env.elsewhere location).namesIn p = env.namesIn p := by
  rw [namesIn, namesIn, locate_elsewhere h]

theorem readText_elsewhere (h : p.IsFixed) (env : Environment) (location : Location) :
    (env.elsewhere location).readText p = env.readText p := by
  rw [readText, readText, read, read, locate_elsewhere h]

/-- What is there to be read is a file. -/
theorem locate_of_readText {env : Environment} {content : String}
    (h : env.readText p = .ok content) : ∃ location data, env.locate p = .ok (location, .file data) := by
  rw [readText, read] at h
  rcases hlocate : env.locate p with cause | ⟨location, data | children⟩
  · rw [hlocate] at h
    cases h
  · exact ⟨location, data, rfl⟩
  · rw [hlocate] at h
    cases h

/-- The directory of a file with an absolute path is absolute, too. -/
theorem isAbsolute_parent_of_file {env : Environment} {location : Location} {data : FileData}
    (absolute : p.isAbsolute = true) (h : env.locate p = .ok (location, .file data)) :
    ∃ parent, p.parent? = some parent ∧ parent.isEmpty = false ∧ parent.isAbsolute = true := by
  obtain ⟨fine, before, last, hsegments, hname⟩ := segments_of_file h
  rcases Path.parent?_of_segments hsegments hname.1 with ⟨hnone, -⟩ | ⟨parent, hparent, hof⟩
  · -- A single segment is not absolute.
    have hlast : Path.IsSegment last := by
      refine Path.isSegment_of_mem (p := p) ?_
      rw [hsegments]
      exact List.mem_append_right _ List.mem_cons_self
    have hp : p = ⟨last⟩ := by
      rw [← Path.ofSegments_segments p, hsegments, hnone]
      exact congrArg Path.mk (String.intercalate_singleton)
    rw [hp, Path.isAbsolute_segment hlast] at absolute
    cases absolute
  · refine ⟨parent, hparent, hof.nonempty, ?_⟩
    obtain ⟨more, htext⟩ := hof.start p [last] (nonempty_of_pathFault fine) hsegments
    obtain ⟨first, rest, hfirst⟩ : ∃ first rest, parent.text.toList = first :: rest :=
      List.exists_cons_of_ne_nil (Path.isEmpty_eq_false_iff.1 hof.nonempty)
    rw [Path.isAbsolute, htext, String.toList_append, hfirst] at absolute
    rw [Path.isAbsolute, hfirst]
    exact absolute

end Environment

open Environment

/-! ## Sources below an absolute root -/

theorem loadEntry_elsewhere {root : Path} (h : root.isAbsolute = true) (env : Environment)
    (location : Location) : loadEntry (env.elsewhere location) root = loadEntry env root := by
  have hfixed : ∀ names, (root.extend names).IsFixed := fun names =>
    .inl (Path.isAbsolute_extend h names)
  funext ⟨names, isDirectory⟩
  cases isDirectory with
  | true => rw [loadEntry, loadEntry, namesIn_elsewhere (hfixed names)]
  | false => rw [loadEntry, loadEntry, loadSource, loadSource, readText_elsewhere (hfixed names)]

theorem loadSources_elsewhere {root : Path} (h : root.isAbsolute = true) (env : Environment)
    (location : Location) : loadSources (env.elsewhere location) root = loadSources env root := by
  have hroot : (root.extend []).IsFixed := .inl h
  rw [loadSources, loadSources, locate_elsewhere (.inl h), loadEntry_elsewhere h, loadSource,
    loadSource, readText_elsewhere hroot]

/-! ## The configuration -/

namespace Compilation

/-- The options of a configuration that are paths. -/
def pathOptions (config : Compilation) : List Path :=
  config.workingDir.toList ++ config.jdkHome.toList ++ config.kotlinc.toList ++ config.classpaths

theorem pathOptions_mapPaths (f : Path → Path) (config : Compilation) :
    (config.mapPaths f).pathOptions = config.pathOptions.map f := by
  simp only [pathOptions, mapPaths, List.map_append]
  cases config.workingDir <;> cases config.jdkHome <;> cases config.kotlinc <;> rfl

end Compilation

/-- The options of a configuration that are paths come from those of a manifest, read from a
    directory. -/
structure ReadFrom (base : Path) (given config : Compilation) : Prop where
  workingDir : config.workingDir = given.workingDir.map base.join
  jdkHome : config.jdkHome = given.jdkHome.map base.join
  kotlinc : config.kotlinc = given.kotlinc.map base.join
  classpaths : config.classpaths = given.classpaths.map base.join
  absolute : ∀ path ∈ config.pathOptions, path.isAbsolute = true

namespace ManifestFile

variable {file : ManifestFile} {config : Compilation}

theorem load_elsewhere {path : Path} (h : path.isAbsolute = true) (env : Environment)
    (location : Location) : load (env.elsewhere location) path = load env path := by
  rw [load, load, readText_elsewhere (.inl h)]

/-- A manifest that was opened through an absolute path has an absolute directory. -/
theorem isAbsolute_baseDir {env : Environment} {path : Path} (h : path.isAbsolute = true)
    (loaded : load env path = .ok file) : file.baseDir.isAbsolute = true := by
  rw [load] at loaded
  rcases htext : env.readText path with cause | content
  · rw [htext] at loaded
    cases loaded
  · rw [htext] at loaded
    obtain ⟨location, data, hfile⟩ := locate_of_readText htext
    obtain ⟨parent, hparent, hnonempty, habsolute⟩ := isAbsolute_parent_of_file h hfile
    have hpath : file.path = path := by
      simp only [Except.map] at loaded
      split at loaded <;> cases loaded
      rfl
    rw [baseDir, hpath, hparent]
    simpa [hnonempty] using habsolute

theorem compilation_elsewhere (h : file.baseDir.isAbsolute = true) (env : Environment)
    (location : Location) : file.compilation (env.elsewhere location) = file.compilation env := by
  have hroots : (fun root => loadSources (env.elsewhere location) (file.baseDir.join root)) =
      fun root => loadSources env (file.baseDir.join root) := by
    funext root
    exact loadSources_elsewhere (Path.isAbsolute_join h root) env location
  rw [compilation, compilation, hroots]

/-- A configuration that was built has the options of the manifest, read from its directory. -/
theorem readFrom_baseDir (h : file.baseDir.isAbsolute = true) {env : Environment}
    (built : file.compilation env = .ok config) :
    ReadFrom file.baseDir file.manifest.compilation config := by
  obtain ⟨units, -, rfl⟩ : ∃ units, (file.manifest.roots.mapM fun root =>
      loadSources env (file.baseDir.join root)) = .ok units ∧
      { file.manifest.compilation.mapPaths file.baseDir.join with
        sources := file.manifest.compilation.sources ++ units.flatten } = config := by
    rw [compilation] at built
    rcases hunits : file.manifest.roots.mapM fun root => loadSources env (file.baseDir.join root)
      with cause | units
    · rw [hunits] at built
      cases built
    · rw [hunits] at built
      cases built
      exact ⟨units, rfl, rfl⟩
  refine ⟨rfl, rfl, rfl, rfl, fun path hm => ?_⟩
  have hm : path ∈ (file.manifest.compilation.mapPaths file.baseDir.join).pathOptions := hm
  rw [Compilation.pathOptions_mapPaths] at hm
  obtain ⟨given, -, rfl⟩ := List.mem_map.1 hm
  exact Path.isAbsolute_join h given

end ManifestFile

/-! ## Resolution -/

/-- The entries of a class path that were there first stay in front when others are added. -/
theorem Path.dedup_append (paths others : List Path) : dedup paths <+: dedup (paths ++ others) := by
  have hfold : ∀ (rest kept : List Path),
      kept <+: rest.foldl (fun kept p => if p.isAmong kept then kept else kept ++ [p]) kept := by
    intro rest
    induction rest with
    | nil => exact fun kept => List.prefix_rfl
    | cons first rest ih =>
      intro kept
      rw [List.foldl_cons]
      split
      · exact ih kept
      · exact (List.prefix_append kept [first]).trans (ih _)
  rw [dedup, dedup, List.foldl_append]
  exact hfold others _

theorem ClassPath.user_prefix (user : List Path) (jars : RuntimeJars) (host : List Path)
    (choice : Choice) : Path.dedup user <+: common user jars host choice := by
  rw [common, List.append_assoc]
  exact Path.dedup_append _ _

/-- A host that gives the same answers to two environments; its JDK is not named relatively. -/
structure Host.AnswersAlike (host : Host) (env other : Environment) : Prop where
  classpath : host.absoluteClasspath other = host.absoluteClasspath env
  jdkHome : host.jdkHome other = host.jdkHome env
  jdkVersion : ∀ home, host.jdkVersion other home = host.jdkVersion env home
  homeAbsolute : ∀ home, host.jdkHome env = some home → home.isAbsolute = true

/-- Two resolutions make the same of the options that are paths. -/
structure Resolution.SameOptions (first second : Resolution) : Prop where
  workspace : second.workspace = first.workspace
  jdkHome : second.jdk.explicitHome = first.jdk.explicitHome
  launcher : second.config.kotlinc = first.config.kotlinc
  generatedKotlin : second.generatedKotlinDir = first.generatedKotlinDir
  /-- The user's entries are in front of both class paths. -/
  classpath : Path.dedup first.config.classpaths <+: first.classpath ∧
    Path.dedup first.config.classpaths <+: second.classpath

/-- What resolution makes of the paths of a configuration does not depend on which of two
    environments it looks at. -/
structure SettledAlike (config : Compilation) (env other : Environment) : Prop where
  /-- The root of the workspace is the one that is configured. -/
  root : ∀ directory, config.workingDir = some directory →
    Resolution.root config env = .ok directory env ∧
      Resolution.root config other = .ok directory other
  /-- The JDK home is accepted by both or refused by both. -/
  jdkHome : Resolution.checkJdkHome other config.jdkHome = Resolution.checkJdkHome env config.jdkHome
  /-- So is the directory of generated Kotlin sources, and it is the same. -/
  generatedKotlin : ∀ workspace,
    Resolution.generatedKotlin other config workspace = Resolution.generatedKotlin env config workspace
  /-- Whatever the hosts answer, two resolutions make the same of the configuration's own paths. -/
  options : ∀ {host host' : Host} {needsKapt : Bool} {workspace : Workspace}
    {first second : Resolution},
    Resolution.inWorkspace env config host needsKapt workspace = .ok first →
    Resolution.inWorkspace other config host' needsKapt workspace = .ok second →
    first.SameOptions second
  /-- With a host that answers alike there is no difference at all. -/
  whole : ∀ {host : Host}, host.AnswersAlike env other → ∀ needsKapt workspace,
    Resolution.inWorkspace other config host needsKapt workspace =
      Resolution.inWorkspace env config host needsKapt workspace

namespace Resolution

variable {config : Compilation}

theorem checkJdkHome_elsewhere {home : Option Path} (h : ∀ path, home = some path → path.IsFixed)
    (env : Environment) (location : Location) :
    checkJdkHome (env.elsewhere location) home = checkJdkHome env home := by
  cases home with
  | none => rfl
  | some path => rw [checkJdkHome, checkJdkHome, isDirectory_elsewhere (h path rfl)]

theorem generatedKotlin_elsewhere
    (h : ∀ directory, config.generatedKotlinDir? = some directory → directory.IsFixed)
    (env : Environment) (location : Location) (workspace : Workspace) :
    generatedKotlin (env.elsewhere location) config workspace =
      generatedKotlin env config workspace := by
  rw [generatedKotlin, generatedKotlin]
  rcases hdirectory : config.generatedKotlinDir? with - | directory
  · rfl
  · simp only [isDirectory_elsewhere (h directory hdirectory)]

theorem toolsJar_elsewhere {home : Option Path}
    (h : ∀ path, home = some path → path.isAbsolute = true) (env : Environment)
    (location : Location) (entries : List Path) :
    toolsJar? (env.elsewhere location) home entries = toolsJar? env home entries := by
  cases home with
  | none => rfl
  | some path =>
    have hjar : (path / "lib" / toolsJarName).IsFixed :=
      .inl (Path.isAbsolute_div (Path.isAbsolute_div (h path rfl) _) _)
    rw [toolsJar?, toolsJar?, Option.map_some, Option.filter_some, Option.filter_some,
      isFile_elsewhere hjar]

theorem explicitHome_probe (host : Host) (env : Environment) (home : Option Path) :
    (Jdk.probe host env home).explicitHome = home :=
  rfl

theorem probe_elsewhere {host : Host} {env other : Environment} (alike : host.AnswersAlike env other)
    (home : Option Path) : Jdk.probe host other home = Jdk.probe host env home := by
  have hversion : host.jdkVersion other = host.jdkVersion env := funext alike.jdkVersion
  simp only [Jdk.probe, alike.jdkHome, hversion]

/-- Which compiler archive is needed does not depend on the working directory. -/
theorem neededToolsJar_elsewhere {jdk : Jdk}
    (h : ∀ home, jdk.effectiveHome = some home → home.isAbsolute = true) (env : Environment)
    (location : Location) (entries : List Path) :
    neededToolsJar (env.elsewhere location) jdk entries = neededToolsJar env jdk entries := by
  rw [neededToolsJar, neededToolsJar, toolsJar_elsewhere h]

/-- Whatever the hosts answered, the options are put into the resolution as they are. -/
theorem sameOptions_assembled (config : Compilation) (workspace : Workspace) (directory : Path)
    {jdk jdk' : Jdk} (hjdk : jdk'.explicitHome = jdk.explicitHome) (entries entries' : List Path)
    (toolsJar toolsJar' : Option Path) :
    (assembled config workspace entries jdk toolsJar directory).SameOptions
      (assembled config workspace entries' jdk' toolsJar' directory) where
  workspace := rfl
  jdkHome := hjdk
  launcher := rfl
  generatedKotlin := rfl
  classpath := ⟨ClassPath.user_prefix _ _ _ _, ClassPath.user_prefix _ _ _ _⟩

/-- A configuration in which every path is absolute is settled alike from everywhere. -/
theorem settledAlike (absolute : ∀ path ∈ config.pathOptions, path.isAbsolute = true)
    (generated : ∀ directory, config.generatedKotlinDir? = some directory → directory.IsFixed)
    (env : Environment) (location : Location) :
    SettledAlike config env (env.elsewhere location) := by
  have hhome : ∀ home, config.jdkHome = some home → home.isAbsolute = true := by
    intro home hhome
    refine absolute home ?_
    simp [Compilation.pathOptions, hhome]
  have hcheck := checkJdkHome_elsewhere (fun home h => .inl (hhome home h)) env location
  have hgenerated := generatedKotlin_elsewhere generated env location
  refine ⟨?_, hcheck, hgenerated, ?_, ?_⟩
  · intro directory hdirectory
    simp only [root, hdirectory]
    exact ⟨rfl, rfl⟩
  · intro host host' needsKapt workspace first second hfirst hsecond
    obtain ⟨-, toolsJar, directory, -, hdirectory, rfl⟩ := inWorkspace_iff.1 hfirst
    obtain ⟨-, toolsJar', directory', -, hdirectory', rfl⟩ := inWorkspace_iff.1 hsecond
    rw [hgenerated, hdirectory] at hdirectory'
    obtain rfl : directory = directory' := Except.ok.inj hdirectory'
    have hjdk : (Jdk.probe host' (env.elsewhere location) config.jdkHome).explicitHome =
        (Jdk.probe host env config.jdkHome).explicitHome := by
      rw [explicitHome_probe, explicitHome_probe]
    exact sameOptions_assembled config workspace directory hjdk _ _ _ _
  · intro host alike needsKapt workspace
    have heffective : ∀ home, (Jdk.probe host env config.jdkHome).effectiveHome = some home →
        home.isAbsolute = true := by
      intro home heffective
      rcases (Option.orElse_eq_some _ _ _).1 heffective with hexplicit | ⟨-, hof⟩
      · exact hhome home hexplicit
      · exact alike.homeAbsolute home hof
    have hneeded := neededToolsJar_elsewhere heffective env location (host.absoluteClasspath env)
    simp only [inWorkspace, alike.classpath, probe_elsewhere alike, hcheck, hgenerated, hneeded]

end Resolution

namespace ManifestFile

/-- **Where the process runs does not matter**: a manifest that is opened through an absolute path
    gives the same configuration from every working directory, its path options are read from its
    own directory, and resolution makes the same of them, provided that the directory of generated
    Kotlin sources is not given relatively. -/
theorem opened_elsewhere {path : Path} (absolute : path.isAbsolute = true) (env : Environment)
    (location : Location) :
    load (env.elsewhere location) path = load env path ∧
      ∀ file, load env path = .ok file →
        file.baseDir.isAbsolute = true ∧
        file.compilation (env.elsewhere location) = file.compilation env ∧
        ∀ config, file.compilation env = .ok config →
          ReadFrom file.baseDir file.manifest.compilation config ∧
          ((∀ directory, config.generatedKotlinDir? = some directory → directory.IsFixed) →
            SettledAlike config env (env.elsewhere location)) := by
  refine ⟨load_elsewhere absolute env location, fun file loaded => ?_⟩
  have hbase := isAbsolute_baseDir absolute loaded
  refine ⟨hbase, compilation_elsewhere hbase env location, fun config built => ?_⟩
  have hread := readFrom_baseDir hbase built
  exact ⟨hread, fun generated => Resolution.settledAlike hread.absolute generated env location⟩

/-- A project in `/proj`, where the process runs, with a manifest that names a directory of generated
    Kotlin sources. -/
def project (generated : String) : Environment where
  files := [["proj", "gen"], ["proj", "jdk"], ["proj"]].foldr
    (fun location tree => tree.insert location .directory) FileTree.empty
    |>.insert ["proj", "kompile.toml"] (.file ⟨Text.encode
      ("[compilation]\nworking-dir = \"w\"\njdk-home = \"jdk\"\nclasspaths = [\"lib\"]\n"
        ++ "[compilation.kapt-args]\n\"kapt.kotlin.generated\" = \"" ++ generated ++ "\"\n"), .plain⟩)
  workingDirectory := ["proj"]
  vars := []
  temporaries := 0

/-- The configuration of a project whose manifest names this directory. -/
theorem project_opens (generated : String)
    (h : yieldsWith (fun file => yieldsWith (fun config =>
        decide (config.generatedKotlinDir? = some ⟨generated⟩)) (file.compilation (project generated)))
      (load (project generated) ⟨"/proj/kompile.toml"⟩) = true) :
    ∃ file config, load (project generated) ⟨"/proj/kompile.toml"⟩ = .ok file ∧
      file.compilation (project generated) = .ok config ∧
      config.generatedKotlinDir? = some ⟨generated⟩ := by
  obtain ⟨file, loaded, hfile⟩ := of_yieldsWith h
  obtain ⟨config, built, hconfig⟩ := of_yieldsWith hfile
  exact ⟨file, config, loaded, built, of_decide_eq_true hconfig⟩

theorem project_elsewhere :
    (Path.mk "/proj/kompile.toml").isAbsolute = true ∧ ∃ file config,
      load (project "/proj/gen") ⟨"/proj/kompile.toml"⟩ = .ok file ∧
      load ((project "/proj/gen").elsewhere []) ⟨"/proj/kompile.toml"⟩ = .ok file ∧
      file.compilation (project "/proj/gen") = .ok config ∧
      file.compilation ((project "/proj/gen").elsewhere []) = .ok config ∧
      ReadFrom file.baseDir file.manifest.compilation config ∧
      SettledAlike config (project "/proj/gen") ((project "/proj/gen").elsewhere []) := by
  have absolute : (Path.mk "/proj/kompile.toml").isAbsolute = true := by decide
  obtain ⟨file, config, loaded, built, hgenerated⟩ :=
    project_opens "/proj/gen" (by decide +kernel)
  obtain ⟨hload, hopened⟩ := opened_elsewhere absolute (project "/proj/gen") []
  obtain ⟨-, hcompilation, hconfig⟩ := hopened file loaded
  obtain ⟨hread, hsettled⟩ := hconfig config built
  refine ⟨absolute, file, config, loaded, hload.trans loaded, built, hcompilation.trans built, hread,
    hsettled fun directory hdirectory => ?_⟩
  rw [hgenerated] at hdirectory
  cases hdirectory
  exact .inl (by decide)

/-- With a relative directory of generated Kotlin sources one manifest, opened through one absolute
    path, is accepted where the process runs beside it and refused where it runs elsewhere. -/
theorem generated_read_elsewhere :
    ∃ file config, load (project "gen") ⟨"/proj/kompile.toml"⟩ = .ok file ∧
      load ((project "gen").elsewhere []) ⟨"/proj/kompile.toml"⟩ = .ok file ∧
      file.compilation (project "gen") = .ok config ∧
      file.compilation ((project "gen").elsewhere []) = .ok config ∧
      Resolution.generatedKotlin (project "gen") config ⟨⟨"/proj/w"⟩⟩ = .ok ⟨"gen"⟩ ∧
      Resolution.generatedKotlin ((project "gen").elsewhere []) config ⟨⟨"/proj/w"⟩⟩ =
        .error (.missingGeneratedDir generatedKotlinOption ⟨"gen"⟩) := by
  obtain ⟨file, config, loaded, built, hgenerated⟩ :=
    project_opens "gen" (by decide +kernel)
  have absolute : (Path.mk "/proj/kompile.toml").isAbsolute = true := by decide
  have hbase := isAbsolute_baseDir absolute loaded
  have here : (project "gen").isDirectory ⟨"gen"⟩ = true := by decide +kernel
  have there : ((project "gen").elsewhere []).isDirectory ⟨"gen"⟩ = false := by decide +kernel
  refine ⟨file, config, loaded, (load_elsewhere absolute _ _).trans loaded, built,
    (compilation_elsewhere hbase _ _).trans built, ?_, ?_⟩
  · simp only [Resolution.generatedKotlin, hgenerated, here, if_true]
  · simp only [Resolution.generatedKotlin, hgenerated, there, Bool.false_eq_true, if_false]

end ManifestFile

end KotlinHarness
