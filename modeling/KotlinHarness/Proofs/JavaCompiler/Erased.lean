/-
  The flags that take the platform away fit the compiler that is run.

  The flags are chosen by the version of the host's JDK, which is found when the configuration is
  settled.  The compiler is looked for later, and the system looks for it once more when it is
  started.  All three come to one JDK where the host has one to come to (`Suited`): the home that a
  variable names has a compiler, or else the compiler on the search path is the one that the system
  would find there, too.

    * `childPath?_of_which`   the search of a child ends where that of the harness does
    * `fits_version`          the version known of the host is that of the compiler's JDK
    * `erasure_fits`          what the compiler is started with

  An unknown version counts as one with the module system, and a home without compiler lends its
  version to another JDK's: see `erasure_misfits`.
-/
import Mathlib.Data.List.Find
import KotlinHarness.JavaCompiler.Strategy
import KotlinHarness.Proofs.Toolchain.Homes
import KotlinHarness.Proofs.Workspace.Prepared

namespace KotlinHarness

namespace Environment

variable {env old new : Environment} {p tool path home : Path} {place : Location} {data : FileData}
  {program : Program} {candidates : List Path} {args : List String} {outcome : Outcome}

/-! ## Which file a child runs -/

/-- The candidate with which the search of a child ends. -/
def firstRun? (env : Environment) : List Path → Option Path
  | [] => none
  | candidate :: rest =>
    match env.programAt candidate with
    | .ok _ => some candidate
    | .error cause => if isSkipped cause then env.firstRun? rest else none

/-- The path of the file that a child runs as its program. -/
def childPath? (env : Environment) (p : Path) : Option Path :=
  if p.text.toList.contains '/' then some p
  else env.firstRun? ((env.searchPath.getD defaultSearchPath).map (·.join p))

theorem firstProgram_ok (h : env.firstProgram candidates = .ok program) :
    ∃ path, env.firstRun? candidates = some path ∧ env.programAt path = .ok program := by
  induction candidates with
  | nil => cases h
  | cons candidate rest ih =>
    rw [firstProgram] at h
    rw [firstRun?]
    rcases hat : env.programAt candidate with cause | found
    · rw [hat] at h
      simp only at h ⊢
      split at h
      · next hskipped =>
        rw [if_pos hskipped]
        refine ih ?_
        split at h
        · cases h
        · exact h
      · cases h
    · rw [hat] at h
      cases h
      exact ⟨candidate, rfl, hat⟩

theorem resolveProgram_ok (h : env.resolveProgram p = .ok program) :
    ∃ path, env.childPath? p = some path ∧ env.programAt path = .ok program := by
  rw [resolveProgram] at h
  split at h
  · cases h
  · rw [childPath?]
    split at h
    · next hslash => exact ⟨p, if_pos hslash, h⟩
    · next hslash =>
      rw [if_neg hslash]
      exact firstProgram_ok h

/-- A command was answered by the program in the file at a place. -/
def AnsweredAt (env : Environment) (place : Location) (p : Path) (args : List String)
    (outcome : Outcome) : Prop :=
  ∃ path data program, env.childPath? p = some path ∧ env.fileAt? path = some (place, data) ∧
    data.mode = .executable (some program) ∧
    outcome = program.run ⟨args, env.currentDirectory.text, env.vars⟩

theorem answeredAt_of_spawn (h : env.spawn { program := p, arguments := args } = .ok outcome) :
    ∃ place, env.AnsweredAt place p args outcome := by
  rw [spawn_eq] at h
  split at h
  · rcases hresolve : env.resolveProgram p with cause | program
    · rw [hresolve] at h
      cases h
    · rw [hresolve] at h
      cases h
      obtain ⟨path, hpath, hprogram⟩ := resolveProgram_ok hresolve
      obtain ⟨place, data, hfile, hmode⟩ := programAt_ok_iff.1 hprogram
      exact ⟨place, path, data, program, hpath, hfile, hmode, rfl⟩
  · cases h

/-- The search of a child passes over no file that may be run. -/
theorem firstRun?_of_find? (found : candidates.find? env.isRunnable = some tool)
    (h : env.firstRun? candidates = some path) : path = tool := by
  induction candidates with
  | nil => cases h
  | cons candidate rest ih =>
    rw [firstRun?] at h
    rcases hat : env.programAt candidate with cause | program
    · rw [hat] at h
      simp only at h
      split at h
      · next hskipped =>
        rw [List.find?_cons_of_neg (by simp [not_isRunnable_of_skipped hat hskipped])] at found
        exact ih found h
      · cases h
    · rw [hat] at h
      cases h
      obtain ⟨place, data, hfile, hmode⟩ := programAt_ok_iff.1 hat
      have hrunnable : env.isRunnable path = true := by
        rw [isRunnable_eq, hfile]
        simp [hmode]
      rw [List.find?_cons_of_pos hrunnable] at found
      cases found
      rfl

/-- Every entry of the search path means to the harness what it means to the system; or no entry is
    empty, so that what the harness finds has a slash in it and is not searched for again. -/
def ReadsEntriesAlike (env : Environment) : Prop :=
  (∀ entry ∈ env.searchPath.getD [], env.searchDirectory? entry = some entry) ∨
    ∀ directory ∈ env.searchDirectories, directory.isEmpty = false

theorem childPath?_of_which (alike : env.ReadsEntriesAlike) {name : String}
    (hname : Path.IsSegment name) (found : env.which name = some tool)
    (h : env.childPath? tool = some path) : path = tool := by
  rw [childPath?] at h
  split at h
  · cases h
    rfl
  · next hslash =>
    obtain ⟨directory, hdirectory, rfl⟩ := List.mem_map.1 (List.mem_of_find?_eq_some found)
    have hempty : directory.isEmpty = true := by
      by_contra hfull
      exact hslash (List.contains_iff_mem.2 (slash_mem_div (Bool.eq_false_iff.2 hfull) hname))
    obtain rfl : directory = ⟨""⟩ := congrArg Path.mk (String.isEmpty_iff.1 hempty)
    rcases alike with hliteral | hnone
    · -- The child has the same candidates.
      have hsame : env.searchDirectories = env.searchPath.getD [] := by
        rw [searchDirectories, List.filterMap_congr hliteral, List.filterMap_some]
      rcases hpath : env.searchPath with - | entries
      · rw [hsame, hpath] at hdirectory
        cases hdirectory
      · rw [which, hsame, hpath] at found
        rw [hpath] at h
        have htool : Path.mk "" / name = ⟨name⟩ := by
          have htext := Path.text_div (p := ⟨""⟩) hname
          rw [if_pos (by decide), String.empty_append] at htext
          exact congrArg Path.mk htext
        refine firstRun?_of_find? found ?_
        rw [htool] at h
        exact h
    · rw [hnone _ hdirectory] at hempty
      cases hempty

/-- What the harness found on the search path is run in its place. -/
theorem AnsweredAt.place_of_which {there : Location} {name : String} (alike : env.ReadsEntriesAlike)
    (hname : Path.IsSegment name) (found : env.which name = some tool)
    (hfile : env.fileAt? tool = some (there, data)) (h : env.AnsweredAt place tool args outcome) :
    place = there := by
  obtain ⟨path, other, program, hpath, hother, -⟩ := h
  rw [childPath?_of_which alike hname found hpath, hfile] at hother
  cases hother
  rfl

/-! ## Tools that stay as they are -/

/-- The same files are found where the compiler is looked for, and in the home that the host had. -/
structure SameTools (old new : Environment) : Prop where
  vars : new.vars = old.vars
  workingDirectory : new.workingDirectory = old.workingDirectory
  searched : ∀ directory ∈ old.searchDirectories,
    new.fileAt? (directory / "javac") = old.fileAt? (directory / "javac")
  home : ∀ home, Host.systemJdkHome old = some home →
    ∀ names ∈ [["release"], ["bin", "java"], ["bin", "javac"]],
      new.fileAt? (home.extend names) = old.fileAt? (home.extend names)

theorem SameTools.refl (env : Environment) : SameTools env env :=
  ⟨rfl, rfl, fun _ _ => rfl, fun _ _ _ _ => rfl⟩

theorem SameTools.which (same : SameTools old new) : new.which "javac" = old.which "javac" := by
  rw [Environment.which, Environment.which, searchDirectories_eq same.vars]
  refine List.find?_congr fun candidate hm => ?_
  obtain ⟨directory, hdirectory, rfl⟩ := List.mem_map.1 hm
  rw [isRunnable_eq, isRunnable_eq, same.searched directory hdirectory]

/-- What was found on the search path is a file. -/
theorem fileAt?_of_which {name : String} (found : env.which name = some tool) :
    ∃ place data, env.fileAt? tool = some (place, data) := by
  have hrunnable := List.find?_some found
  rw [isRunnable_eq] at hrunnable
  rcases hfile : env.fileAt? tool with - | ⟨place, data⟩
  · rw [hfile] at hrunnable
    cases hrunnable
  · exact ⟨place, data, rfl⟩

theorem SameTools.systemJdkHome (same : SameTools old new) :
    Host.systemJdkHome new = Host.systemJdkHome old := by
  rw [Host.systemJdkHome, Host.systemJdkHome, same.vars, same.which]
  rcases old.vars.get? "JAVA_HOME" with - | home
  · rcases hwhich : old.which "javac" with - | tool
    · rw [Option.bind_none, Option.bind_none]
    · obtain ⟨place, data, hfile⟩ := fileAt?_of_which hwhich
      obtain ⟨directory, hdirectory, rfl⟩ := List.mem_map.1 (List.mem_of_find?_eq_some hwhich)
      have hnew := same.searched directory hdirectory
      rw [hfile] at hnew
      obtain ⟨⟨_, hold⟩, -⟩ := fileAt?_eq_some_iff.1 hfile
      obtain ⟨⟨_, hnew⟩, -⟩ := fileAt?_eq_some_iff.1 hnew
      simp only [Option.bind_some]
      rw [Host.homeOfTool?, Host.homeOfTool?, canonical?, canonical?, hold, hnew]
  · rfl

theorem SameTools.systemJdkVersion (same : SameTools old new)
    (hhome : Host.systemJdkHome old = some home) :
    Host.systemJdkVersion new home = Host.systemJdkVersion old home := by
  have hrelease := same.home home hhome ["release"] (by simp)
  have hjava := same.home home hhome ["bin", "java"] (by simp)
  rw [Host.systemJdkVersion_eq, Host.systemJdkVersion_eq,
    show new.fileAt? (home / "release") = old.fileAt? (home / "release") from hrelease,
    show new.fileAt? (home / "bin" / "java") = old.fileAt? (home / "bin" / "java") from hjava,
    toldVersion?, toldVersion?, currentDirectory, currentDirectory, same.vars,
    same.workingDirectory]

/-- The compiler of the host is found again. -/
theorem SameTools.locate (same : SameTools old new) :
    HostJavac.locate new (Host.systemJdkHome old) = HostJavac.locate old (Host.systemJdkHome old) := by
  rw [HostJavac.locate, HostJavac.locate, same.which]
  rcases hhome : Host.systemJdkHome old with - | home
  · rfl
  · have hjavac := same.home home hhome ["bin", "javac"] (by simp)
    have hfile : new.isFile (home / "bin" / "javac") = old.isFile (home / "bin" / "javac") := by
      rw [isFile_eq, isFile_eq]
      exact congrArg Option.isSome hjavac
    simp only [Option.map_some, Option.filter_some, hfile]

end Environment

/-! ## The host's version -/

open Environment

/-- The compiler on the search path, with its home, is what the system takes for them, too. -/
structure Environment.PlainSearch (env : Environment) : Prop where
  alike : env.ReadsEntriesAlike
  named : Fits env.workingDirectory
  /-- The home of the compiler has an absolute spelling that is not too long. -/
  spelled : ∀ tool home, env.which "javac" = some tool → Host.homeOfTool? env tool = some home →
    pathFault? (home / "bin" / "javac") = none

/-- A host whose compiler belongs to its JDK. -/
structure Suited (env : Environment) : Prop where
  owned : ∀ home, env.vars.get? "JAVA_HOME" = some home →
    env.isFile (Path.mk home / "bin" / "javac") = true
  searched : env.vars.get? "JAVA_HOME" = none → env.PlainSearch

namespace HostJavac

variable {env : Environment} {javac home : Path} {place : Location} {args : List String}
  {outcome : Outcome}

/-- The compiler in a home is run where it stands, and its JDK is the one at that home. -/
theorem version_of_home (answered : env.AnsweredAt place (home / "bin" / "javac") args outcome) :
    (Host.systemJdkVersion env home).all (·.isModular) = env.isModularAt place := by
  obtain ⟨path, data, program, hpath, hfile, -⟩ := answered
  have hslash : '/' ∈ (home / "bin" / "javac").text.toList :=
    slash_mem_div (Path.isEmpty_div (Path.isEntry_of_plain (by decide)))
      (Path.isEntry_of_plain (by decide)).segment
  rw [childPath?, if_pos (List.contains_iff_mem.2 hslash)] at hpath
  cases hpath
  obtain ⟨root, rfl, hversion⟩ := Host.root_of_javac hfile
  rw [isModularAt, jdkRoot?_append, hversion]
  rfl

/-- The version known of the host is that of the JDK to which the compiler belongs that is run. -/
theorem fits_version (suited : Suited env)
    (found : (locate env (Host.systemJdkHome env)).javac = some javac)
    (answered : env.AnsweredAt place javac args outcome) :
    ((Host.systemJdkHome env).bind (Host.systemJdkVersion env)).all (·.isModular) =
      env.isModularAt place := by
  rcases hvariable : env.vars.get? "JAVA_HOME" with - | text
  · obtain ⟨alike, named, spelled⟩ := suited.searched hvariable
    have hhome : Host.systemJdkHome env = (env.which "javac").bind (Host.homeOfTool? env) := by
      rw [Host.systemJdkHome, hvariable]
    rcases hwhich : env.which "javac" with - | tool
    · rw [hhome, locate, hwhich] at found
      cases found
    · obtain ⟨there, data, hfile⟩ := fileAt?_of_which hwhich
      obtain ⟨hleads, hlook⟩ := fileAt?_eq_some_iff.1 hfile
      have fits := fits_of_leadsTo named hleads
      have htool := Host.homeOfTool?_eq hleads fits.isFileName
      rw [hwhich, Option.bind_some, htool] at hhome
      rw [hhome] at found ⊢
      have hplace : javac = tool → place = there := by
        rintro rfl
        exact answered.place_of_which alike (Path.isEntry_of_plain (by decide)).segment hwhich hfile
      rcases hroot : jdkRoot? there with - | root
      · -- Above the tool there is no home, and so no version.
        rw [hroot, locate, hwhich] at found
        cases found
        rw [hplace rfl, isModularAt, hroot]
        rfl
      · rw [hroot, Option.map_some] at htool found
        rw [Option.map_some, Option.bind_some]
        have fine := spelled tool _ hwhich htool
        by_cases hown : env.isFile (spelling root / "bin" / "javac") = true
        · rw [locate, Option.map_some, Option.filter_some, if_pos hown] at found
          cases found
          exact version_of_home answered
        · rw [locate, Option.map_some, Option.filter_some, if_neg hown, hwhich] at found
          cases found
          rw [hplace rfl, isModularAt, hroot, Option.bind_some,
            Host.systemJdkVersion_spelling fits hlook hroot fine]
  · have hhome : Host.systemJdkHome env = some ⟨text⟩ := by rw [Host.systemJdkHome, hvariable]
    have hown := suited.owned text hvariable
    rw [hhome, locate, Option.map_some, Option.filter_some, if_pos hown] at found
    cases found
    rw [hhome]
    exact version_of_home answered

end HostJavac

namespace JavaStrategy

variable {σ : Type}

/-- **The flags fit**: the file that is run as the compiler belongs to the JDK two levels above it, and
    its platform is taken away by `--system none` if that JDK has the module system or no known
    version, and by an empty boot class path if it is older. -/
theorem erasure_fits {config : Compilation} {needsKapt : Bool}
    {before probed now later : Environment} {resolution : Resolution} {javac : Path}
    (resolved : Resolution.resolve config .system needsKapt before = .ok resolution probed)
    (noHome : config.jdkHome = none) (same : SameTools probed now) (same' : SameTools probed later)
    (suited : Suited later)
    (found : (HostJavac.locate now resolution.jdk.hostHome).javac = some javac) :
    (select now resolution none : JavaStrategy σ) =
        embedded (HostJavac.mk (some javac)).service resolution.jdk.hostIsModular ∧
      ∀ sources outcome,
        later.spawn
            { program := javac
              arguments := embeddedArguments resolution.jdk.hostIsModular resolution sources } =
          .ok outcome →
        ∃ place, later.AnsweredAt place javac
          (JavaCompiler.baseArguments resolution (later.isModularAt place) ++
            (if later.isModularAt place then ["--system", "none"] else ["-bootclasspath", ""]) ++
            sources.map Path.text) outcome := by
  obtain ⟨path, -, hinside⟩ := Resolution.inWorkspace_of_resolve resolved
  obtain ⟨-, toolsJar, directory, -, -, rfl⟩ := Resolution.inWorkspace_iff.1 hinside
  have hversion : (Jdk.probe .system probed config.jdkHome).hostIsModular =
      ((Host.systemJdkHome later).bind (Host.systemJdkVersion later)).all (·.isModular) := by
    rw [same'.systemJdkHome]
    show ((Host.systemJdkHome probed).bind (Host.systemJdkVersion probed)).all _ = _
    rcases hprobed : Host.systemJdkHome probed with - | home
    · rfl
    · rw [Option.bind_some, Option.bind_some, same'.systemJdkVersion hprobed]
  have hlocate : HostJavac.locate now (Jdk.probe .system probed config.jdkHome).hostHome =
      HostJavac.locate later (Host.systemJdkHome later) := by
    rw [same'.systemJdkHome, same'.locate, ← same.locate]
    rfl
  have hfound : (HostJavac.locate later (Host.systemJdkHome later)).javac = some javac :=
    hlocate ▸ found
  constructor
  · rw [select, show (Resolution.assembled config _ _ _ _ _).config.jdkHome = none from noHome]
    refine congrArg (fun compiler : HostJavac => embedded compiler.service _) ?_
    rw [← found]
  · intro sources outcome hspawn
    obtain ⟨place, answered⟩ := answeredAt_of_spawn hspawn
    refine ⟨place, ?_⟩
    rw [← HostJavac.fits_version suited hfound answered, ← hversion]
    exact answered

/-- A file that prints a text when it is run. -/
def printing (text : String) : FileData :=
  ⟨[], .executable (some ⟨fun _ => ⟨Text.encode text, [], .exited 0⟩⟩)⟩

/-- The release file of a JDK. -/
def releaseOf (version : String) : FileData :=
  ⟨Text.encode ("JAVA_VERSION=\"" ++ version ++ "\"\n"), .plain⟩

/-- A host with some files. -/
def hostWith (vars : Variables) (workingDirectory : Location)
    (files : List (Location × FileData)) : Environment where
  files := files.foldl
    (fun tree found => (tree.withDirectories found.1.dropLast).insert found.1 (.file found.2))
    FileTree.empty
  workingDirectory := workingDirectory
  vars := vars
  temporaries := 0

/-- A compile call that names no JDK. -/
def plainCall : Compilation := { workingDir := some ⟨"/w"⟩ }

/-- The resolution of that call. -/
def plainResolution (env : Environment) : Resolution :=
  Resolution.assembled plainCall ⟨⟨"/w"⟩⟩ (Host.system.absoluteClasspath env)
    (Jdk.probe .system env none) none (Workspace.mk ⟨"/w"⟩).generatedKotlin

theorem resolve_plainCall (env : Environment) :
    Resolution.resolve plainCall .system false env = .ok (plainResolution env) env := by
  have hinside : Resolution.inWorkspace env plainCall .system false ⟨⟨"/w"⟩⟩ =
      .ok (plainResolution env) := Resolution.inWorkspace_iff.2 ⟨rfl, none, _, rfl, rfl, rfl⟩
  rw [Resolution.resolve, bind_eq, show Resolution.root plainCall env = .ok ⟨"/w"⟩ env from rfl]
  simp only
  rw [get_bind, hinside]
  rfl

/-- The search path leads to a JDK from before the module system. -/
def oldOnPath : Environment :=
  hostWith [("PATH", "/j/bin")] []
    [(["j", "release"], releaseOf "1.8.0_292"), (["j", "bin", "javac"], printing "javac 1.8.0_292\n")]

theorem oldOnPath_suited : Suited oldOnPath where
  owned home h := by
    have hunset : oldOnPath.vars.get? "JAVA_HOME" = none := by decide
    rw [hunset] at h
    cases h
  searched _ :=
    { alike := .inl (by decide)
      named := by decide
      spelled := by
        intro tool home htool hhome
        have hwhich : oldOnPath.which "javac" = some ⟨"/j/bin/javac"⟩ := by decide +kernel
        rw [hwhich] at htool
        cases htool
        have hjdk : Host.homeOfTool? oldOnPath ⟨"/j/bin/javac"⟩ = some ⟨"/j"⟩ := by decide +kernel
        rw [hjdk] at hhome
        cases hhome
        decide +kernel }

/-- The arguments of that call. -/
def oldOnPathArguments : List String :=
  embeddedArguments (plainResolution oldOnPath).jdk.hostIsModular (plainResolution oldOnPath)
    [⟨"A.java"⟩]

theorem oldOnPath_erased : ∃ outcome,
    oldOnPath.spawn { program := ⟨"/j/bin/javac"⟩, arguments := oldOnPathArguments } = .ok outcome ∧
    oldOnPath.AnsweredAt ["j", "bin", "javac"] ⟨"/j/bin/javac"⟩
      (JavaCompiler.baseArguments (plainResolution oldOnPath) false ++ ["-bootclasspath", ""] ++
        ["A.java"]) outcome := by
  have found : (HostJavac.locate oldOnPath (plainResolution oldOnPath).jdk.hostHome).javac =
      some ⟨"/j/bin/javac"⟩ := by decide +kernel
  have hfits := (@erasure_fits Unit _ _ _ _ _ _ _ _ (resolve_plainCall oldOnPath) rfl (.refl _)
    (.refl _) oldOnPath_suited found).2 [⟨"A.java"⟩]
  have runs : (oldOnPath.spawn
      { program := ⟨"/j/bin/javac"⟩, arguments := oldOnPathArguments }).isOk = true := by
    decide +kernel
  rcases hspawn : oldOnPath.spawn
      { program := ⟨"/j/bin/javac"⟩, arguments := oldOnPathArguments } with cause | outcome
  · rw [hspawn] at runs
    cases runs
  · obtain ⟨place, answered⟩ := hfits outcome hspawn
    obtain rfl : place = ["j", "bin", "javac"] := by
      obtain ⟨path, data, program, hpath, hfile, -⟩ := answered
      have hchild : oldOnPath.childPath? ⟨"/j/bin/javac"⟩ = some ⟨"/j/bin/javac"⟩ := by
        decide +kernel
      have hplace : (oldOnPath.fileAt? ⟨"/j/bin/javac"⟩).map Prod.fst =
          some ["j", "bin", "javac"] := by decide +kernel
      rw [hchild] at hpath
      cases hpath
      rw [hfile] at hplace
      cases hplace
      rfl
    have hold : oldOnPath.isModularAt ["j", "bin", "javac"] = false := by decide +kernel
    rw [hold] at answered
    exact ⟨outcome, rfl, answered⟩

/-! ## Where they do not fit -/

/-- The compiler that is run says of itself whether it has the module system, and the flags are those
    for one of which the opposite is true. -/
def Misfits (env : Environment) (modular : Bool) : Prop :=
  ∃ resolution javac, Resolution.resolve plainCall .system false env = .ok resolution env ∧
    (HostJavac.locate env resolution.jdk.hostHome).javac = some javac ∧
    isModularJavac env javac = modular ∧ resolution.jdk.hostIsModular = !modular

/-- An old JDK without a readable version. -/
def mute : Environment :=
  hostWith [("PATH", "/j/bin")] [] [(["j", "bin", "javac"], printing "javac 1.8.0_292\n")]

/-- An old JDK without compiler is named, and a new one is on the search path. -/
def lent : Environment :=
  hostWith [("JAVA_HOME", "/old"), ("PATH", "/new/bin")] []
    [(["old", "release"], releaseOf "1.8.0_292"), (["new", "release"], releaseOf "17.0.1"),
      (["new", "bin", "javac"], printing "javac 17.0.1\n")]

/-- An entry of the search path that the harness expands stands before one for the working directory,
    in which a directory has the name of the entry. -/
def shadowed : Environment :=
  hostWith [("PATH", "~/b:"), ("HOME", "/x")] ["h", "s"]
    [(["h", "release"], releaseOf "1.8.0_292"), (["h", "s", "javac"], printing "javac 1.8.0_292\n"),
      (["h", "s", "~", "b", "javac"], printing "javac 17.0.1\n")]

theorem erasure_misfits : Misfits mute false ∧ Misfits lent true ∧ Misfits shadowed true := by
  refine ⟨⟨_, ⟨"/j/bin/javac"⟩, resolve_plainCall mute, ?_, ?_, ?_⟩,
    ⟨_, ⟨"/new/bin/javac"⟩, resolve_plainCall lent, ?_, ?_, ?_⟩,
    ⟨_, ⟨"javac"⟩, resolve_plainCall shadowed, ?_, ?_, ?_⟩⟩
  all_goals decide +kernel

end JavaStrategy

end KotlinHarness
