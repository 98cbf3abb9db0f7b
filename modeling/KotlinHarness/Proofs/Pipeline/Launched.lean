/-
  When the launcher is spawned for stubs.

  Three tests tell the plugin that writes stubs from other archives: how file names of its archives
  are spelled when the class path of the host is searched, how such a name starts and ends when the
  launcher is about to be run, and the extension when its command line is put together.  On what the
  annotation processing stage hands over they agree (`pluginClasspaths_told`).

  That the launcher is spawned is said by other ways of running commands: `frontendBy` takes any, and
  a stage spawns the launcher when it can come out differently with another one.

    * `reachFrontend`   the stage up to the call of the front end
    * `kapt_starts`     where the stage starts in a compile call: `kapt_spawns` applies there
    * `kapt_spawns`     when the launcher is spawned, with which plugins, and what happens otherwise
-/
import KotlinHarness.Proofs.Pipeline.CompilerCalls
import KotlinHarness.Proofs.Pipeline.Reprocessed
import KotlinHarness.Proofs.Toolchain.Archives

namespace KotlinHarness

open Context Environment Machine PluginHost

variable {σ : Type}

/-! ## The plugin and other archives -/

namespace Path

theorem fileName?_div {p : Path} {name : String} (h : IsFileName name) :
    (p / name).fileName? = some name := by
  obtain ⟨before, hsegments, -⟩ := segments_div (p := p) h.entry.segment
  rw [fileName?, splitLast?_of_segments hsegments h.isName.1]
  simp only [if_neg h.isName.2]

end Path

namespace Launcher

variable {p : Path}

/-- How every archive of the plugin is named. -/
theorem kaptPlugin_spelled {fileName : String} (h : RuntimeLibrary.kaptPlugin.IsArchive fileName) :
    ∃ middle, fileName = "kotlin-annotation-processing" ++ middle ++ ".jar" := by
  have hnames : ∀ name ∈ RuntimeLibrary.kaptPlugin.names,
      ∃ middle, name = "kotlin-annotation-processing" ++ middle := by
    intro name hm
    simp only [RuntimeLibrary.kaptPlugin, List.mem_cons, List.not_mem_nil, or_false] at hm
    rcases hm with rfl | rfl
    · exact ⟨"-embeddable", by decide⟩
    · exact ⟨"", by decide⟩
  rcases h with hsimple | ⟨name, hname, version, -, rfl⟩
  · simp only [RuntimeLibrary.kaptPlugin, List.mem_cons, List.not_mem_nil, or_false] at hsimple
    rcases hsimple with rfl | rfl
    · exact ⟨"-embeddable", by decide⟩
    · exact ⟨"", by decide⟩
  · obtain ⟨middle, rfl⟩ := hnames name hname
    exact ⟨middle ++ "-" ++ String.ofList version, by simp only [String.append_assoc]⟩

/-- What is found for the plugin is run as the plugin and named on the command line. -/
theorem isKaptArchive_of_fits (h : RuntimeLibrary.kaptPlugin.Fits p) :
    isKaptArchive p = true ∧ p.extension? = some "jar" := by
  obtain ⟨fileName, hname, harchive⟩ := h
  obtain ⟨middle, rfl⟩ := kaptPlugin_spelled harchive
  constructor
  · rw [isKaptArchive, hname]
    simp only [Bool.and_eq_true, List.isPrefixOf_iff_prefix, List.isSuffixOf_iff_suffix,
      String.toList_append]
    exact ⟨⟨_, (List.append_assoc ..).symm⟩, List.suffix_append _ _⟩
  · have hne : "kotlin-annotation-processing" ++ middle ≠ "" := by
      intro heq
      have hlength := congrArg (·.toList.length) heq
      simp [String.toList_append] at hlength
    have hcut : Path.splitName ("kotlin-annotation-processing" ++ middle ++ "." ++ "jar") =
        ("kotlin-annotation-processing" ++ middle, some "jar") :=
      Path.splitName_append hne (by decide)
    rw [String.append_assoc, show "." ++ "jar" = ".jar" from rfl] at hcut
    rw [Path.extension?, hname, Option.bind_some, hcut]

/-- The compiler archive is named on the command line, and is not the plugin. -/
theorem isKaptArchive_of_isToolsJar (h : isToolsJar p = true) :
    isKaptArchive p = false ∧ p.extension? = some "jar" := by
  have hname : p.fileName? = some toolsJarName := by simpa [isToolsJar] using h
  rw [isKaptArchive, Path.extension?, hname]
  exact ⟨by decide, by decide +kernel⟩

/-- The directory that lists plugins is none of them. -/
theorem isKaptArchive_registrar (workspace : Workspace) :
    isKaptArchive workspace.registrar = false ∧ workspace.registrar.extension? = none := by
  have hname : workspace.registrar.fileName? = some "registrar" :=
    Path.fileName?_div (by decide +kernel)
  rw [isKaptArchive, Path.extension?, hname]
  exact ⟨by decide, by decide +kernel⟩

end Launcher

/-! ## What a resolution found -/

theorem isToolsJar_of_toolsJar? {env : Environment} {home : Option Path} {entries : List Path}
    {jar : Path} (h : toolsJar? env home entries = some jar) : isToolsJar jar = true := by
  rcases (Option.orElse_eq_some _ _ _).1 h with hhome | ⟨-, hentry⟩
  · obtain ⟨hjar, -⟩ := Option.filter_eq_some_iff.1 hhome
    obtain ⟨path, -, rfl⟩ := Option.map_eq_some_iff.1 hjar
    rw [isToolsJar, Path.fileName?_div (by decide +kernel), decide_eq_true_eq]
  · exact List.find?_some hentry

namespace Resolution

variable {config : Compilation} {host : Host} {needsKapt : Bool} {env after : Environment}
  {resolution : Resolution}

theorem isToolsJar_of_neededToolsJar {jdk : Jdk} {entries : List Path} {found : Option Path}
    (h : neededToolsJar env jdk entries = .ok found) : ∀ jar, found = some jar → isToolsJar jar = true := by
  rintro jar rfl
  rw [neededToolsJar] at h
  split at h
  · cases h
  · split at h
    · next hjar =>
      cases h
      exact isToolsJar_of_toolsJar? hjar
    · cases h

/-- The archives that a resolution found have the names that they were looked for by, and the
    compiler archive is a file: it is not taken from the class path of the host. -/
theorem archives_of_resolve (h : resolve config host needsKapt env = .ok resolution after) :
    resolution.runtime = RuntimeJars.discover (host.absoluteClasspath after) ∧
      (∀ jar, resolution.toolsJar = some jar →
        isToolsJar jar = true ∧ after.isFile jar = true) ∧
      ∀ jar, resolution.runtime.kaptPlugin = some jar → RuntimeLibrary.kaptPlugin.Fits jar := by
  obtain ⟨path, -, hinside⟩ := inWorkspace_of_resolve h
  obtain ⟨-, found, directory, htools, -, rfl⟩ := inWorkspace_iff.1 hinside
  refine ⟨rfl, ?_, fun jar hjar =>
    (RuntimeLibrary.isMatch_iff (by decide)).1 (RuntimeLibrary.isMatch_of_find? hjar)⟩
  cases needsKapt
  · rw [if_neg (by simp)] at htools
    cases htools
    exact fun jar hjar => by cases hjar
  · rw [if_pos rfl] at htools
    obtain ⟨-, hfile⟩ :=
      neededToolsJar_again (.refl after : Grows (fun _ _ => True) after after) htools
    exact fun jar hjar => ⟨isToolsJar_of_neededToolsJar htools jar hjar, hfile jar hjar⟩

end Resolution

/-! ## The stage up to the front end -/

namespace Stage

variable {registration : Registration σ} {context reached : Context σ} {args : FrontendArguments}

/-- What the annotation processing stage does before it calls the front end: the arguments of the
    call. -/
def reachFrontend (registration : Registration σ) : ContextAction σ FrontendArguments := do
  let context ← get
  let workspace := context.resolution.workspace
  let staged := StagedSource.ofLanguage .kotlin context.staged
  let sources ← onMachine (onEnvironment (kaptSources workspace staged))
  onMachine (onEnvironment (Plugin.register workspace.registrar))
  pure (kaptArguments registration context sources)

theorem runKapt_eq (frontend : Frontend σ) (registration : Registration σ) :
    runKapt frontend registration = (do
      let args ← reachFrontend registration
      onMachine (withRegistration registration (frontend.exec args))) := by
  simp only [runKapt, reachFrontend, bind_assoc, pure_bind]

theorem runKapt_of_reach (reaches : reachFrontend registration context = .ok args reached)
    (frontend : Frontend σ) :
    runKapt frontend registration context =
      onMachine (withRegistration registration (frontend.exec args)) reached := by
  rw [runKapt_eq, bind_eq, reaches]

theorem reachFrontend_ok (h : reachFrontend registration context = .ok args reached) :
    ∃ sources read listed,
      kaptSources context.resolution.workspace (StagedSource.ofLanguage .kotlin context.staged)
        context.machine.environment = .ok sources read ∧
      Plugin.register context.resolution.workspace.registrar read = .ok () listed ∧
      args = kaptArguments registration context sources ∧
      reached = { context with machine := { context.machine with environment := listed } } := by
  rw [reachFrontend, get_bind] at h
  obtain ⟨sources, _, hsources, h⟩ := of_bind_ok h
  obtain ⟨_, _, hregister, hlast⟩ := of_bind_ok h
  obtain ⟨read, hread, rfl⟩ := onMachine_onEnvironment_eq_ok.1 hsources
  obtain ⟨listed, hlisted, rfl⟩ := onMachine_onEnvironment_eq_ok.1 hregister
  cases hlast
  exact ⟨sources, read, listed, hread, hlisted, rfl, rfl⟩

/-- Files stay files up to there. -/
theorem reachFrontend_grows (h : reachFrontend registration context = .ok args reached) :
    Grows (fun _ _ => True) context.machine.environment reached.machine.environment := by
  obtain ⟨sources, read, listed, hread, hlisted, -, rfl⟩ := reachFrontend_ok h
  exact ((keeps_kaptSources _ _).of_ok hread).grows.trans
    ((Plugin.keeps_register _).of_ok hlisted).grows

end Stage

/-! ## Where the stage starts -/

/-- The resolution stays, and files stay files. -/
structure KeepsFiles (before after : Context σ) : Prop where
  resolution : after.resolution = before.resolution
  grows : Grows (fun _ _ => True) before.machine.environment after.machine.environment

theorem keepsFiles_composes : Composes (@KeepsFiles σ) :=
  ⟨fun _ => ⟨rfl, .refl _⟩,
    fun h h' => ⟨h'.resolution.trans h.resolution, h.grows.trans h'.grows⟩⟩

theorem keepsFiles_looksAtFiles : LooksAtFiles (@KeepsFiles σ) := by
  intro before after resolution _ environment
  refine ⟨resolution, ?_⟩
  rw [environment]
  exact .refl _

namespace Harness

open Pipeline

variable {harness : Harness σ} {machine : Machine σ} {env after : Environment}
  {resolution : Resolution} {staged : List StagedSource}

/-- Staging the sources in the workspace leaves the files that there were at the resolution. -/
theorem prepare_grows (h : harness.prepare env = .ok (resolution, staged) after) :
    ∃ settled, Resolution.resolve harness.config harness.host harness.needsKapt env =
        .ok resolution settled ∧ Grows (fun _ _ => True) settled after := by
  obtain ⟨settled, created, hresolve, hcreate, hstaged⟩ := prepare_eq_ok.1 h
  refine ⟨settled, hresolve, ?_⟩
  exact ((Workspace.keeps_createAll _ _).of_ok hcreate).trans (SourceUnit.stageAll_grows hstaged)

/-- **In a compile call**, whatever its sources and processors are and however it goes on, the
    annotation processing stage starts with the resolution of the call, in an environment in which the
    files that there were at the resolution are files, if its hooks leave it so. -/
theorem kapt_starts {visits : List (Visit σ)} {visit : Visit σ} {start : Context σ}
    {result : EStateM.Result Failure (Context σ) ExitCode}
    (prepared : harness.prepare machine.environment = .ok (resolution, staged) env)
    (hooks : EveryCall KeepsFiles harness.hooks [])
    (h : Runs harness.hooks none (harness.pipeline env resolution).stages
      (harness.beginning machine env resolution staged) visits result)
    (hm : visit ∈ visits) (name : visit.stage.name = "kapt")
    (made : Made.mk (.body visit.stage) start ∈ visit.made) :
    ∃ settled, Resolution.resolve harness.config harness.host harness.needsKapt
        machine.environment = .ok resolution settled ∧
      start.resolution = resolution ∧
      Grows (fun _ _ => True) settled start.machine.environment := by
  obtain ⟨settled, hresolve, hgrows⟩ := prepare_grows prepared
  suffices hstart : KeepsFiles (harness.beginning machine env resolution staged) start from
    ⟨settled, hresolve, hstart.resolution, hgrows.trans hstart.grows⟩
  have h : Runs harness.hooks none
      [.kapt harness.frontend (harness.registration? resolution), .kotlin harness.frontend,
        .java (.select env resolution harness.javaService)]
      (harness.beginning machine env resolution staged) visits result := h
  -- It is the first stage, and only hooks are called before it.
  have later : ∀ {scope : Option ScopeId} {first : Context σ} {others : List (Visit σ)},
      Runs harness.hooks scope [.kotlin harness.frontend,
        .java (.select env resolution harness.javaService)] first others result →
      visit ∉ others := by
    intro scope first others runs hother
    obtain ⟨hstage, -⟩ := runs.inCourse.of_mem visit hother
    simp only [List.mem_cons, List.not_mem_nil, or_false] at hstage
    rcases hstage with hstage | hstage
    · rw [hstage] at name
      exact absurd name (name_ne_kapt .kotlin)
    · rw [hstage] at name
      exact absurd name (name_ne_kapt .java)
  have attends : ∀ {scope : Option ScopeId} {made : List (Made σ)} {fate : Fate} {stage : Stage σ}
      {after : Context σ},
      Attends harness.hooks stage
        (scopeFor stage scope (harness.beginning machine env resolution staged)).2 made fate after →
      Made.mk (.body stage) start ∈ made →
      KeepsFiles (harness.beginning machine env resolution staged) start := fun attended hmade =>
    keepsFiles_composes.trans (keepsFiles_looksAtFiles.scopeFor _ _ _)
      (attended.start keepsFiles_composes hooks hmade)
  cases h with
  | skip idle others =>
    rcases List.mem_cons.1 hm with rfl | hm
    · exact absurd made List.not_mem_nil
    · exact absurd hm (later others)
  | goOn needed attended others =>
    rcases List.mem_cons.1 hm with rfl | hm
    · exact attends attended made
    · exact absurd hm (later others)
  | stop needed attended last =>
    cases List.mem_singleton.1 hm
    exact attends attended made

end Harness

/-! ## The plugins that are listed -/

namespace Plugin

variable {directory : Path} {env after : Environment} {registration : Registration σ}

/-- A directory in which the plugin was listed lists it, and nothing else. -/
theorem listedIn_of_register (nonempty : directory.isEmpty = false)
    (h : register directory env = .ok () after) :
    listedIn after directory = .ok [annotationProcessing] := by
  rw [register] at h
  obtain ⟨done, middle, hdeposit, hlast⟩ := of_bind_ok h
  cases hlast
  have hdeposit := environmentDuring_ok hdeposit
  obtain ⟨location, data, hlocate, -⟩ := deposit_file hdeposit
  have hfile : after.isFile (listing directory) = true := isFile_iff.2 ⟨location, data, hlocate⟩
  rw [listedIn, isDirectory_of_listing nonempty hfile, hfile, (deposit_ok hdeposit).readText]
  rfl

/-- What is no directory lists no plugins. -/
theorem listedIn_of_not_isDirectory (h : env.isDirectory directory = false) :
    listedIn env directory = .ok [] := by
  rw [listedIn, h]
  rfl

theorem runInTurn_singleton (args : FrontendArguments) (plugin : Plugin) :
    (runInTurn args [plugin] : MachineAction σ ExitCode) = plugin.run args := by
  funext machine
  rw [runInTurn, bind_eq]
  rcases plugin.run args machine with ⟨code, after⟩ | ⟨cause, after⟩
  · cases code <;> rfl
  · rfl

/-- Where the one plugin is listed, its call runs the processors. -/
theorem runAll_of_discover {args : FrontendArguments} {machine : Machine σ}
    (listed : discover machine.environment args.pluginClasspaths = .ok [annotationProcessing])
    (installed : machine.registration? = some registration) :
    runAll args machine = Processing.process registration
      (Processing.inputs machine.environment args registration) machine := by
  rw [runAll, get_bind, listed]
  exact (congrFun (runInTurn_singleton args annotationProcessing) machine).trans
    (run_eq args annotationProcessing installed)

end Plugin

/-! ## The launcher -/

namespace Launcher

/-- Runs the launcher at `path`, as a command that `child` runs. -/
def runBy (child : Command → MachineAction σ ExitCode) (path : Path) (args : FrontendArguments) :
    MachineAction σ ExitCode := do
  child (command (← get).environment path args)

/-- What is printed when there is no plugin to write stubs. -/
def missingPlugin : String :=
  "warning: kapt compiler plugin not found on the host classpath, "
    ++ "Kotlin sources are processed without stubs"

/-- Runs the launcher for stubs, when there is a plugin to write them. -/
def runForStubsBy (child : Command → MachineAction σ ExitCode) (path : Path)
    (args : FrontendArguments) : MachineAction σ ExitCode := do
  if args.pluginClasspaths.any isKaptArchive then runBy child path args
  else
    printLine missingPlugin
    pure .ok

/-- One call of the front end. -/
def execBy (launcher : Launcher) (child : Command → MachineAction σ ExitCode)
    (args : FrontendArguments) : MachineAction σ ExitCode := do
  match launcher.path? (← get).environment with
  | none =>
    printLine "error: kotlinc not found; configure \x60kotlinc\x60 or put it on PATH"
    pure .internalError
  | some path =>
    match args.mode with
    | .compile => runBy child path args
    | .stubs =>
      let code ← runForStubsBy child path args
      if code.isOk then Plugin.runAll args else pure code

/-- The launcher as a front end, with another way of running commands. -/
def frontendBy (launcher : Launcher) (child : Command → MachineAction σ ExitCode) : Frontend σ :=
  ⟨"kotlinc", launcher.execBy child⟩

/-- The host runs commands as child processes. -/
theorem frontendBy_runTool (launcher : Launcher) :
    (launcher.frontendBy (runTool ExitCode.ofKotlinc) : Frontend σ) = launcher.frontend :=
  rfl

/-- The arguments of the launcher for archives of plugins. -/
def pluginArguments (archives : List Path) : List String :=
  archives.map fun jar => "-Xplugin=" ++ jar.text

/-- What the places of plugins make of a command line is in one stretch of it. -/
theorem commandLine_eq (args : FrontendArguments) : ∃ front back, ∀ places,
    ({ args with pluginClasspaths := places } : FrontendArguments).commandLine =
      front ++ pluginArguments (places.filter fun path => path.extension? = some "jar") ++ back := by
  refine ⟨({ args with
      pluginClasspaths := [], pluginOptions := [], freeArguments := [], sources := []
      javaSources := [] } : FrontendArguments).commandLine,
    args.pluginOptions.flatMap (fun option => ["-P", option]) ++ args.freeArguments ++
      args.sources.map Path.text ++ args.javaSources.map Path.text, fun places => ?_⟩
  simp only [FrontendArguments.commandLine, FrontendArguments.pluginArchives, pluginArguments,
    List.filter_nil, List.map_nil, List.flatMap_nil, List.append_nil, List.append_assoc]

variable {launcher : Launcher} {path : Path} {args : FrontendArguments} {machine : Machine σ}
  {registration : Registration σ} {context reached : Context σ}
  {child : Command → MachineAction σ ExitCode}

theorem execBy_stubs (found : launcher.path? machine.environment = some path)
    (hmode : args.mode = .stubs) : launcher.execBy child args machine = (do
      let code ← runForStubsBy child path args
      if code.isOk then Plugin.runAll args else pure code : MachineAction σ ExitCode) machine := by
  rw [execBy, get_bind]
  simp only [found, hmode]

/-- What is done under a registration is told by what it does on the machine that holds it. -/
theorem withRegistration_congr {action other : MachineAction σ ExitCode}
    (h : action (holding registration context.machine) = other (holding registration context.machine)) :
    onMachine (withRegistration registration action) context =
      onMachine (withRegistration registration other) context := by
  rw [holding] at h
  simp only [onMachine, withRegistration, h]

/-- With the plugin among its plugins the stage spawns the launcher before everything else. -/
theorem kapt_with_plugin (reaches : Stage.reachFrontend registration context = .ok args reached)
    (found : launcher.path? reached.machine.environment = some path)
    (plugin : args.pluginClasspaths.any isKaptArchive = true) :
    Stage.runKapt (launcher.frontendBy child) registration context =
      onMachine (withRegistration registration (do
        let code ← child (command reached.machine.environment path args)
        if code.isOk then Plugin.runAll args else pure code)) reached := by
  obtain ⟨sources, read, listed, -, -, hargs, -⟩ := Stage.reachFrontend_ok reaches
  rw [Stage.runKapt_of_reach reaches]
  refine withRegistration_congr ?_
  have found' : launcher.path? (holding registration reached.machine).environment = some path := found
  show launcher.execBy child args (holding registration reached.machine) = _
  rw [execBy_stubs found' (by rw [hargs]; rfl), bind_eq, bind_eq, runForStubsBy, if_pos plugin]
  rfl

/-- Without it there is a warning instead. -/
theorem kapt_without_plugin (reaches : Stage.reachFrontend registration context = .ok args reached)
    (found : launcher.path? reached.machine.environment = some path)
    (plugin : args.pluginClasspaths.any isKaptArchive = false) :
    Stage.runKapt (launcher.frontendBy child) registration context =
      onMachine (withRegistration registration (do
        printLine missingPlugin
        Plugin.runAll args)) reached := by
  obtain ⟨sources, read, listed, -, -, hargs, -⟩ := Stage.reachFrontend_ok reaches
  rw [Stage.runKapt_of_reach reaches]
  refine withRegistration_congr ?_
  have found' : launcher.path? (holding registration reached.machine).environment = some path := found
  show launcher.execBy child args (holding registration reached.machine) = _
  rw [execBy_stubs found' (by rw [hargs]; rfl), bind_eq, bind_eq, runForStubsBy,
    if_neg (by simp [plugin]), bind_eq]
  rcases printLine missingPlugin (holding registration reached.machine) with
    ⟨_, after⟩ | ⟨cause, after⟩ <;> rfl

/-- The processors run after the warning when they are all that is listed. -/
theorem processed_without_plugin
    (listed : Plugin.discover reached.machine.environment args.pluginClasspaths =
      .ok [.annotationProcessing]) :
    onMachine (withRegistration registration (do
        printLine missingPlugin
        Plugin.runAll args)) reached =
      onMachine (withRegistration registration (do
        printLine missingPlugin
        Processing.process registration
          (Processing.inputs reached.machine.environment args registration))) reached := by
  refine withRegistration_congr ?_
  rw [bind_eq, bind_eq]
  have hprints := keeps_printLine missingPlugin (holding registration reached.machine)
  rcases hprint : printLine missingPlugin (holding registration reached.machine) with
    ⟨_, after⟩ | ⟨cause, after⟩
  · rw [hprint] at hprints
    have hsame : after.environment = reached.machine.environment := hprints.environment
    have hinstalled : after.registration? = some registration :=
      hprints.registration.trans (registration?_holding registration reached.machine)
    simp only
    rw [← hsame] at listed ⊢
    exact Plugin.runAll_of_discover listed hinstalled
  · rfl

/-- A stage that spawns the launcher fails when spawning fails, and does not when there is an exit
    code. -/
theorem spawned (command : Command) :
    ∃ child child' : Command → MachineAction σ ExitCode,
      onMachine (withRegistration registration (do
        let code ← child command
        if code.isOk then Plugin.runAll args else pure code)) reached ≠
      onMachine (withRegistration registration (do
        let code ← child' command
        if code.isOk then Plugin.runAll args else pure code)) reached := by
  refine ⟨fun _ => throw .roundsExhausted, fun _ => pure .internalError, fun heq => ?_⟩
  cases heq

/-- What the two other parts are told about the places of plugins. -/
theorem pluginClasspaths_told {resolution : Resolution}
    (tools : ∀ jar, resolution.toolsJar = some jar → isToolsJar jar = true)
    (plugin : ∀ jar, resolution.runtime.kaptPlugin = some jar → RuntimeLibrary.kaptPlugin.Fits jar) :
    (Stage.pluginClasspaths resolution).any isKaptArchive = resolution.runtime.kaptPlugin.isSome ∧
      ((Stage.pluginClasspaths resolution).filter fun path => path.extension? = some "jar") =
        resolution.toolsJar.toList ++ resolution.runtime.kaptPlugin.toList := by
  have htools : ∀ jar ∈ resolution.toolsJar.toList,
      isKaptArchive jar = false ∧ jar.extension? = some "jar" := fun jar hm =>
    isKaptArchive_of_isToolsJar (tools jar (Option.mem_toList.1 hm))
  have hplugin : ∀ jar ∈ resolution.runtime.kaptPlugin.toList,
      isKaptArchive jar = true ∧ jar.extension? = some "jar" := fun jar hm =>
    isKaptArchive_of_fits (plugin jar (Option.mem_toList.1 hm))
  obtain ⟨hregistrar, hregistrar'⟩ := isKaptArchive_registrar resolution.workspace
  rw [Stage.pluginClasspaths]
  constructor
  · have hnone : (resolution.toolsJar.toList ++ [resolution.workspace.registrar]).any isKaptArchive =
        false := by
      rw [List.any_append, List.any_eq_false.2 fun jar hm => by simp [htools jar hm]]
      simp [hregistrar]
    rw [List.any_append, hnone, Bool.false_or]
    rcases hjar : resolution.runtime.kaptPlugin with - | jar
    · rfl
    · rw [hjar] at hplugin
      simp [(hplugin jar (List.mem_singleton_self jar)).1]
  · have hall : ∀ {jars : List Path}, (∀ jar ∈ jars, jar.extension? = some "jar") →
        (jars.filter fun path => path.extension? = some "jar") = jars := fun h =>
      List.filter_eq_self.2 fun jar hm => decide_eq_true (h jar hm)
    rw [List.filter_append, List.filter_append, hall fun jar hm => (htools jar hm).2,
      hall fun jar hm => (hplugin jar hm).2, List.filter_cons_of_neg (by simp [hregistrar']),
      List.filter_nil, List.append_nil]

/-- Only the one plugin is listed when the host has no archive to write stubs. -/
theorem discover_of_reach {resolution : Resolution} (settled : context.resolution = resolution)
    (reaches : Stage.reachFrontend registration context = .ok args reached)
    (absent : resolution.runtime.kaptPlugin = none)
    (plain : ∀ jar, resolution.toolsJar = some jar →
      reached.machine.environment.isDirectory jar = false) :
    Plugin.discover reached.machine.environment args.pluginClasspaths =
      .ok [.annotationProcessing] := by
  obtain ⟨sources, read, listed, -, hlisted, rfl, rfl⟩ := Stage.reachFrontend_ok reaches
  have nonempty : context.resolution.workspace.registrar.isEmpty = false :=
    Path.isEmpty_div (Path.isEntry_of_plain (by decide))
  have hregistrar : Plugin.discover listed [context.resolution.workspace.registrar] =
      .ok [.annotationProcessing] := by
    rw [Plugin.discover, Plugin.listedIn_of_register nonempty hlisted]
    rfl
  show Plugin.discover listed (Stage.pluginClasspaths context.resolution) = _
  rw [Stage.pluginClasspaths, settled, absent, Option.toList_none, List.append_nil, ← settled]
  rcases hjar : context.resolution.toolsJar with - | jar
  · exact hregistrar
  · have hplain : listed.isDirectory jar = false := plain jar (by rw [← settled, hjar])
    rw [Option.toList_some, List.singleton_append, Plugin.discover,
      Plugin.listedIn_of_not_isDirectory hplain, hregistrar]
    rfl

/-- **When the launcher is spawned for stubs**: once the annotation processing stage has come to the
    front end, just when an archive of the plugin was found on the class path of the host.

    Then it is run before the processors, and for plugins its command line has the compiler archive
    that was added, if any, and the archive that was found, and no other.  Otherwise there is a warning,
    and what would have been done after the launcher is done all the same: the processors run over the
    same declarations, when the compiler archive is no directory.  It is none if the files that there
    were at the resolution are still files when the stage starts, as in a compile call
    (`Harness.kapt_starts`). -/
theorem kapt_spawns {config : Compilation} {host : Host} {needsKapt : Bool} {env after : Environment}
    {resolution : Resolution} {launcher : Launcher} {path : Path} {args : FrontendArguments}
    {registration : Registration σ} {context reached : Context σ}
    (resolved : Resolution.resolve config host needsKapt env = .ok resolution after)
    (settled : context.resolution = resolution)
    (reaches : Stage.reachFrontend registration context = .ok args reached)
    (found : launcher.path? reached.machine.environment = some path) :
    (launcher.frontend : Frontend σ) = launcher.frontendBy (runTool ExitCode.ofKotlinc) ∧
    ((∃ child child' : Command → MachineAction σ ExitCode,
        Stage.runKapt (launcher.frontendBy child) registration context ≠
          Stage.runKapt (launcher.frontendBy child') registration context) ↔
      (RuntimeJars.discover (host.absoluteClasspath after)).kaptPlugin.isSome = true) ∧
    (∀ jar, (RuntimeJars.discover (host.absoluteClasspath after)).kaptPlugin = some jar →
      (∃ front back,
        (∀ places, ({ args with pluginClasspaths := places } : FrontendArguments).commandLine =
          front ++ pluginArguments (places.filter fun path => path.extension? = some "jar") ++ back) ∧
        (command reached.machine.environment path args).arguments =
          front ++ pluginArguments (resolution.toolsJar.toList ++ [jar]) ++ back) ∧
      ∀ child, Stage.runKapt (launcher.frontendBy child) registration context =
        onMachine (withRegistration registration (do
          let code ← child (command reached.machine.environment path args)
          if code.isOk then Plugin.runAll args else pure code)) reached) ∧
    ((RuntimeJars.discover (host.absoluteClasspath after)).kaptPlugin = none → ∀ child,
      Stage.runKapt (launcher.frontendBy child) registration context =
          onMachine (withRegistration registration (do
            printLine missingPlugin
            Plugin.runAll args)) reached ∧
        ((∀ jar, resolution.toolsJar = some jar →
            reached.machine.environment.isDirectory jar = false) →
          Stage.runKapt (launcher.frontendBy child) registration context =
            onMachine (withRegistration registration (do
              printLine missingPlugin
              Processing.process registration
                (Processing.inputs reached.machine.environment args registration))) reached)) ∧
    ((∃ may, Grows may after context.machine.environment) →
      ∀ jar, resolution.toolsJar = some jar →
        reached.machine.environment.isDirectory jar = false) := by
  obtain ⟨hruntime, htools, hplugin⟩ := Resolution.archives_of_resolve resolved
  obtain ⟨hany, hfilter⟩ := pluginClasspaths_told (fun jar hjar => (htools jar hjar).1) hplugin
  have hplaces : args.pluginClasspaths = Stage.pluginClasspaths resolution := by
    obtain ⟨sources, read, listed, -, -, rfl, -⟩ := Stage.reachFrontend_ok reaches
    rw [← settled]
    rfl
  rw [← hplaces] at hany hfilter
  rw [← hruntime]
  refine ⟨(frontendBy_runTool launcher).symm, ?spawns, ?plugin, ?none, ?plain⟩
  case plain =>
    rintro ⟨may, grows⟩ jar hjar
    have hfile := grows.isFile (htools jar hjar).2
    exact isDirectory_of_isFile ((Stage.reachFrontend_grows reaches).isFile hfile)
  case plugin =>
    intro jar hjar
    rw [hjar] at hany hfilter
    refine ⟨?_, fun child => kapt_with_plugin reaches found hany⟩
    obtain ⟨front, back, hline⟩ := commandLine_eq args
    refine ⟨front, back, hline, ?_⟩
    show args.commandLine = _
    rw [← Option.toList_some, ← hfilter]
    exact hline args.pluginClasspaths
  case none =>
    intro absent child
    rw [absent] at hany
    have hwithout : Stage.runKapt (launcher.frontendBy child) registration context = _ :=
      kapt_without_plugin reaches found hany
    exact ⟨hwithout, fun plain =>
      hwithout.trans (processed_without_plugin (discover_of_reach settled reaches absent plain))⟩
  case spawns =>
    rcases hjar : resolution.runtime.kaptPlugin with - | jar
    · rw [hjar] at hany
      refine iff_of_false ?_ (by simp)
      rintro ⟨child, child', hne⟩
      exact hne ((kapt_without_plugin reaches found hany).trans
        (kapt_without_plugin reaches found hany).symm)
    · rw [hjar] at hany
      refine iff_of_true ?_ rfl
      simp only [kapt_with_plugin reaches found hany]
      exact spawned _

/-- A host with an old JDK, and with the plugin on its class path. -/
def hostWithPlugin : Host :=
  .fixed [⟨"/k/kotlin-annotation-processing.jar"⟩] (some ⟨"/jdk8"⟩)
    [(⟨"/jdk8"⟩, ⟨8, 0, 292, "1.8.0_292"⟩)]

/-- The compiler archive of that JDK, and a launcher. -/
def filesWithPlugin : Environment where
  files := ((FileTree.empty.withDirectories ["jdk8", "lib"]).insert ["jdk8", "lib", "tools.jar"]
    (.file ⟨[], .plain⟩)).insert ["kotlinc"] (.file ⟨[], .executable none⟩)
  workingDirectory := []
  vars := []
  temporaries := 0

/-- A call that has got as far as annotation processing, without sources. -/
def contextWith (resolution : Resolution) (env : Environment) : Context Unit :=
  ⟨.start env 5 (), resolution, [], []⟩

/-- A launcher that the configuration names. -/
def namedLauncher : Launcher := ⟨some ⟨"/kotlinc"⟩⟩

/-- The stage of that call with a processor. -/
def kaptWith (resolution : Resolution) (child : Command → MachineAction Unit ExitCode) :
    ContextAction Unit ExitCode :=
  Stage.runKapt (namedLauncher.frontendBy child) (.ofResolution [Processing.builder] resolution)

theorem kapt_spawns_hostWithPlugin : ∃ resolution after args reached,
    Resolution.resolve { workingDir := some ⟨"/w"⟩ } hostWithPlugin true filesWithPlugin =
      .ok resolution after ∧
    Stage.reachFrontend (.ofResolution [Processing.builder] resolution)
      (contextWith resolution after) = .ok args reached ∧
    namedLauncher.path? reached.machine.environment = some ⟨"/kotlinc"⟩ ∧
    (∃ child child', kaptWith resolution child (contextWith resolution after) ≠
      kaptWith resolution child' (contextWith resolution after)) ∧
    (∃ front back, (command reached.machine.environment ⟨"/kotlinc"⟩ args).arguments =
      front ++ ["-Xplugin=/jdk8/lib/tools.jar", "-Xplugin=/k/kotlin-annotation-processing.jar"] ++
        back) ∧
    reached.machine.environment.isDirectory ⟨"/jdk8/lib/tools.jar"⟩ = false := by
  have succeeds : succeedsWith (fun resolution after =>
      (resolution.toolsJar = some ⟨"/jdk8/lib/tools.jar"⟩ ∧
        (RuntimeJars.discover (hostWithPlugin.absoluteClasspath after)).kaptPlugin =
          some ⟨"/k/kotlin-annotation-processing.jar"⟩ : Bool) &&
        succeedsWith (fun _ _ => true) (Stage.reachFrontend
          (.ofResolution [Processing.builder] resolution) (contextWith resolution after)))
      (Resolution.resolve { workingDir := some ⟨"/w"⟩ } hostWithPlugin true filesWithPlugin) = true := by
    decide +kernel
  obtain ⟨resolution, after, resolved, hchecked⟩ := of_succeedsWith succeeds
  obtain ⟨hjars, hreaches⟩ := Bool.and_eq_true_iff.1 hchecked
  obtain ⟨htools, hplugin⟩ := of_decide_eq_true hjars
  obtain ⟨args, reached, reaches, -⟩ := of_succeedsWith hreaches
  have found : namedLauncher.path? reached.machine.environment = some ⟨"/kotlinc"⟩ := rfl
  obtain ⟨-, spawns, plugin, -, plain⟩ := kapt_spawns resolved rfl reaches found
  obtain ⟨⟨front, back, -, harguments⟩, -⟩ := plugin _ hplugin
  rw [htools] at harguments
  exact ⟨resolution, after, args, reached, resolved, reaches, found, spawns.2 (by rw [hplugin]; rfl),
    ⟨front, back, harguments⟩, plain ⟨fun _ _ => True, .refl after⟩ _ htools⟩

end Launcher

end KotlinHarness
