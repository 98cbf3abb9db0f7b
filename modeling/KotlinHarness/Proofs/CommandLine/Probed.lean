/-
  What the report on a host says about a compile call.

  The report and the resolution of a configuration each put the same findings together: the version
  of the JDK in use, its home, whether the compiler archive is on the class path, and whether it
  stands below the home.  Their verdict is the same for every host:

    * `neededToolsJar_reported`   the verdict of the resolution, read off the report
    * `Foretold`                  what a report foretells of a resolution that processes annotations

  The report is made before anything else.  The resolution asks the host only after it settled the
  workspace root, which may fail, and which makes a directory when none is configured.  A directory
  that is new and empty does not bring an archive to light (`isFile_temporary`), so a host that gives
  the same answers is reported alike before and after.
-/
import KotlinHarness.CommandLine.Report
import KotlinHarness.Proofs.Files.Digging
import KotlinHarness.Proofs.Processing.Replayed
import KotlinHarness.Proofs.Workspace.Prepared
import KotlinHarness.Proofs.Workspace.Refused

namespace KotlinHarness

/-! ## The verdict -/

/-- The verdict of the resolution on the compiler archive, read off the report. -/
theorem neededToolsJar_reported (host : Host) (env : Environment) (home : Option Path) :
    Resolution.neededToolsJar env (Jdk.probe host env home) (host.absoluteClasspath env) =
      let report := ProbeReport.ofHost host env home
      if report.toolsJarRequired then
        match report.toolsJar with
        | some jar => .ok (some jar)
        | none => .error (.missingToolsJar (report.jdkVersion.getD ""))
      else .ok none := by
  have hrequired : (ProbeReport.ofHost host env home).toolsJarRequired =
      ((Jdk.probe host env home).isPreModular && !hasToolsJar (host.absoluteClasspath env)) := rfl
  rw [Resolution.neededToolsJar]
  simp only [hrequired]
  by_cases hneeded : ((Jdk.probe host env home).isPreModular &&
      !hasToolsJar (host.absoluteClasspath env)) = true
  · rw [if_pos hneeded, if_neg (by simpa using hneeded)]
    rfl
  · rw [if_neg hneeded, if_pos]
    revert hneeded
    cases (Jdk.probe host env home).isPreModular <;> simp

/-- An archive is required only of a JDK whose version is known. -/
theorem jdkVersion_of_required {host : Host} {env : Environment} {home : Option Path}
    (h : (ProbeReport.ofHost host env home).toolsJarRequired = true) :
    ∃ version, (ProbeReport.ofHost host env home).jdkVersion = some version := by
  have hold : (Jdk.probe host env home).isPreModular = true := (Bool.and_eq_true_iff.1 h).1
  rw [Jdk.isPreModular] at hold
  show ∃ version, (Jdk.probe host env home).version.map JavaVersion.text = some version
  rcases hversion : (Jdk.probe host env home).version with - | version
  · rw [hversion] at hold
    cases hold
  · exact ⟨version.text, rfl⟩

/-- An archive that is required and not there is missed for a version that is reported. -/
theorem neededToolsJar_missing {host : Host} {env : Environment} {home : Option Path}
    (required : (ProbeReport.ofHost host env home).toolsJarRequired = true)
    (absent : (ProbeReport.ofHost host env home).toolsJar = none) :
    ∃ version, (ProbeReport.ofHost host env home).jdkVersion = some version ∧
      Resolution.neededToolsJar env (Jdk.probe host env home) (host.absoluteClasspath env) =
        .error (.missingToolsJar version) := by
  obtain ⟨version, hversion⟩ := jdkVersion_of_required required
  refine ⟨version, hversion, ?_⟩
  rw [neededToolsJar_reported]
  simp only [required, absent, hversion, if_true, Option.getD_some]

/-- In all other cases the archive is the one reported, if one is required. -/
theorem neededToolsJar_not_missing {host : Host} {env : Environment} {home : Option Path}
    (h : ¬ ((ProbeReport.ofHost host env home).toolsJarRequired = true ∧
      (ProbeReport.ofHost host env home).toolsJar = none)) :
    Resolution.neededToolsJar env (Jdk.probe host env home) (host.absoluteClasspath env) =
      .ok (if (ProbeReport.ofHost host env home).toolsJarRequired then
        (ProbeReport.ofHost host env home).toolsJar else none) := by
  rw [neededToolsJar_reported]
  rcases hrequired : (ProbeReport.ofHost host env home).toolsJarRequired with - | -
  · simp only [hrequired, Bool.false_eq_true, if_false]
  · rcases hjar : (ProbeReport.ofHost host env home).toolsJar with - | jar
    · exact absurd ⟨hrequired, hjar⟩ h
    · simp only [hrequired, hjar, if_true]

namespace Resolution

variable {config : Compilation} {host : Host} {env : Environment} {workspace : Workspace}

/-- With a JDK home that is there, two things are left to be refused: the archive that is missing
    and then the directory of generated Kotlin sources. -/
theorem inWorkspace_eq (present : ∀ home, config.jdkHome = some home → env.isDirectory home = true) :
    inWorkspace env config host true workspace =
      match neededToolsJar env (Jdk.probe host env config.jdkHome) (host.absoluteClasspath env) with
      | .error cause => .error cause
      | .ok toolsJar =>
        (generatedKotlin env config workspace).map
          (assembled config workspace (host.absoluteClasspath env)
            (Jdk.probe host env config.jdkHome) toolsJar) := by
  have hchecked : checkJdkHome env config.jdkHome = .ok () := by
    rcases hhome : config.jdkHome with - | home
    · rfl
    · rw [checkJdkHome, if_pos (present home hhome)]
  simp only [inWorkspace, hchecked, bind, Except.bind, pure, Except.pure, if_true]
  rcases neededToolsJar env (Jdk.probe host env config.jdkHome) (host.absoluteClasspath env) with
    cause | toolsJar
  · rfl
  · rcases generatedKotlin env config workspace with cause | directory <;> rfl

/-- What a report foretells of the resolution of a configuration, for annotation processing. -/
structure Foretold (config : Compilation) (report : ProbeReport) (env : Environment)
    (answer : EStateM.Result ConfigError Environment Resolution) : Prop where
  /-- It fails for want of the archive exactly when one is required and none is reported. -/
  missing : (∃ version after, answer = .error (.missingToolsJar version) after) ↔
    report.toolsJarRequired = true ∧ report.toolsJar = none
  /-- That failure names the version which is reported. -/
  version : ∀ version after, answer = .error (.missingToolsJar version) after →
    report.jdkVersion = some version
  /-- An archive that is required and found is the one that is added. -/
  found : ∀ jar resolution after, report.toolsJarRequired = true → report.toolsJar = some jar →
    answer = .ok resolution after → resolution.toolsJar = some jar
  /-- Where none is required none is added. -/
  unneeded : ∀ resolution after, report.toolsJarRequired = false →
    answer = .ok resolution after → resolution.toolsJar = none
  /-- In both of these cases it succeeds, unless the user's directory of generated Kotlin sources is
      not there. -/
  settled : ¬ (report.toolsJarRequired = true ∧ report.toolsJar = none) →
    (∃ resolution, answer = .ok resolution env) ∨
      ∃ directory, config.generatedKotlinDir? = some directory ∧
        env.isDirectory directory = false ∧
        answer = .error (.missingGeneratedDir generatedKotlinOption directory) env

/-- What the directory of generated Kotlin sources is refused for. -/
theorem generatedKotlin_eq_error {cause : ConfigError}
    (h : generatedKotlin env config workspace = .error cause) :
    ∃ directory, config.generatedKotlinDir? = some directory ∧ env.isDirectory directory = false ∧
      cause = .missingGeneratedDir generatedKotlinOption directory := by
  rw [generatedKotlin] at h
  split at h
  · cases h
  · next directory hdirectory =>
    split at h
    · cases h
    · next hmissing =>
      cases h
      exact ⟨directory, hdirectory, by simpa using hmissing, rfl⟩

/-- Once the root is settled, resolution goes on with what it finds in the workspace. -/
theorem resolve_of_root (host : Host) {path : Path} {after : Environment}
    (rooted : root config env = .ok path after) :
    (∀ resolution, inWorkspace after config host true ⟨path⟩ = .ok resolution →
      resolve config host true env = .ok resolution after) ∧
      ∀ cause, inWorkspace after config host true ⟨path⟩ = .error cause →
        resolve config host true env = .error cause after := by
  rw [resolve, bind_eq, rooted]
  simp only
  rw [get_bind]
  constructor
  · intro resolution h
    rw [h]
    rfl
  · intro cause h
    rw [h]
    rfl

/-- Then it goes as the report foretells. -/
theorem foretold_of_root {path : Path} {after : Environment}
    (present : ∀ home, config.jdkHome = some home → after.isDirectory home = true)
    (rooted : root config env = .ok path after) :
    Foretold config (ProbeReport.ofHost host after config.jdkHome) after
      (resolve config host true env) := by
  obtain ⟨succeeds, fails⟩ := resolve_of_root host rooted
  rw [inWorkspace_eq present] at succeeds fails
  by_cases hmissing : (ProbeReport.ofHost host after config.jdkHome).toolsJarRequired = true ∧
      (ProbeReport.ofHost host after config.jdkHome).toolsJar = none
  · obtain ⟨version, hversion, hneeded⟩ := neededToolsJar_missing hmissing.1 hmissing.2
    rw [fails (.missingToolsJar version) (by rw [hneeded])]
    constructor <;> simp [hmissing, hversion]
  · rw [neededToolsJar_not_missing hmissing] at succeeds fails
    -- Whatever archive is added, only the directory can be refused any more.
    rcases hgenerated : generatedKotlin after config ⟨path⟩ with cause | generated
    · obtain ⟨directory, hdirectory, hnone, rfl⟩ := generatedKotlin_eq_error hgenerated
      rw [fails (.missingGeneratedDir generatedKotlinOption directory) (by rw [hgenerated]; rfl)]
      constructor <;> simp [hmissing, hdirectory, hnone]
    · have hanswer := succeeds _ (by rw [hgenerated]; rfl)
      rw [hanswer]
      constructor
      case missing => simp [hmissing]
      case version => simp
      case found =>
        rintro jar _ _ hrequired hfound ⟨⟩
        exact (if_pos hrequired).trans hfound
      case unneeded =>
        rintro _ _ hunneeded ⟨⟩
        exact if_neg (by rw [hunneeded]; decide)
      case settled => exact fun _ => .inl ⟨_, rfl⟩

end Resolution

/-! ## Before and after the temporary root is made -/

namespace Environment

variable {old new : Environment} {p : Path}

/-- Making a temporary root adds a directory and changes nothing else. -/
theorem MadeTemporary.grows {may : Location → FileData → Prop} (h : MadeTemporary old new) :
    Grows may old new := by
  obtain ⟨passed, -, root, made⟩ := h
  have hfree : old.look root = none := made.free
  have hothers : ∀ other, other ≠ root → new.look other = old.look other := made.others
  have hpresent : ∀ {other : Location} {leaf : Leaf}, old.look other = some leaf →
      new.look other = some leaf := by
    intro other leaf hold
    rw [hothers other ?_, hold]
    intro heq
    rw [heq, hfree] at hold
    cases hold
  refine ⟨?_, hpresent, fun hold => ⟨_, hpresent hold⟩, ?_⟩
  · rw [made.rest]
    rfl
  · intro other data hnew
    left
    rw [← hothers other ?_]
    · exact hnew
    · intro heq
      rw [heq, made.made] at hnew
      cases hnew

/-- A file that is there after a temporary root was made was there before. -/
theorem MadeTemporary.look_file (h : MadeTemporary old new) {location : Location} {data : FileData}
    (hnew : new.look location = some (.file data)) : old.look location = some (.file data) := by
  have hgrows : Grows (fun _ _ => False) old new := h.grows
  rcases hgrows.changed hnew with hold | hmay
  · exact hold
  · exact hmay.elim

/-- A walk to a file that does not go up could be made before. -/
theorem MadeTemporary.follow_file (h : MadeTemporary old new) {here location : Location}
    {segments : List String} {data : FileData} (up : ".." ∉ segments)
    (hnew : new.files.follow here segments = .ok (location, .file data)) :
    old.files.follow here segments = .ok (location, .file data) := by
  have hgrows : Grows (fun _ _ => False) old new := h.grows
  exact FileTree.follow_back_file hgrows.files up hnew
    (h.look_file (FileTree.look_file_iff.2 (FileTree.get?_of_follow hnew)))

/-- Names read from a directory, or from a path that does not go up, lead to the same files before
    and after a temporary root is made. -/
theorem isFile_temporary (h : MadeTemporary old new) {names : List String}
    (hnames : ∀ name ∈ names, IsFileName name)
    (straight : old.isDirectory p = true ∨ ".." ∉ (p.extend names).segments) :
    new.isFile (p.extend names) = old.isFile (p.extend names) := by
  have hgrows : Grows (fun _ _ => False) old new := h.grows
  rw [Bool.eq_iff_iff]
  constructor
  · intro hfile
    obtain ⟨location, data, hlocate⟩ := isFile_iff.1 hfile
    obtain ⟨fine, hfollow⟩ := follow_of_locate hlocate
    refine isFile_iff.2 ⟨location, data, ?_⟩
    rcases straight with hdirectory | up
    · -- The directory is where it was, and the names go down from there.
      obtain ⟨here, children, hbase⟩ := isDirectory_iff.1 hdirectory
      obtain ⟨children', hbase'⟩ := hgrows.locate_directory hbase
      rw [locate_extend hbase' hnames fine] at hlocate
      rw [locate_extend hbase hnames fine]
      apply h.follow_file _ hlocate
      intro hm
      exact (hnames _ hm).isName.2 rfl
    · exact hgrows.locate_back up hlocate (h.look_file (locate_file_iff.1 hlocate).2)
  · exact hgrows.isFile

end Environment

/-- A host that answers the same in two environments. -/
structure Host.AnswersAgain (host : Host) (env after : Environment) : Prop where
  classpath : host.absoluteClasspath after = host.absoluteClasspath env
  jdkHome : host.jdkHome after = host.jdkHome env
  jdkVersion : ∀ home, host.jdkVersion after home = host.jdkVersion env home

/-- The home in use is a directory, or is spelled without two dots. -/
def Jdk.IsPlaced (jdk : Jdk) (env : Environment) : Prop :=
  ∀ home, jdk.effectiveHome = some home → env.isDirectory home = true ∨ ".." ∉ home.segments

/-- A host that answers the same is reported alike before and after the temporary root is made. -/
theorem ofHost_temporary {host : Host} {env after : Environment} {home : Option Path}
    (made : Environment.MadeTemporary env after) (again : host.AnswersAgain env after)
    (placed : (Jdk.probe host env home).IsPlaced env) :
    ProbeReport.ofHost host after home = ProbeReport.ofHost host env home := by
  have hversion : host.jdkVersion after = host.jdkVersion env := funext again.jdkVersion
  have hjdk : Jdk.probe host after home = Jdk.probe host env home := by
    simp only [Jdk.probe, again.jdkHome, hversion]
  have hnames : ∀ name ∈ ["lib", toolsJarName], Environment.IsFileName name := by decide +kernel
  have hfilter : ∀ wanted, (Jdk.probe host env home).effectiveHome = some wanted →
      after.isFile (wanted / "lib" / toolsJarName) = env.isFile (wanted / "lib" / toolsJarName) := by
    intro wanted hwanted
    show after.isFile (wanted.extend ["lib", toolsJarName]) = _
    apply Environment.isFile_temporary made hnames
    rcases placed wanted hwanted with hdirectory | up
    · exact .inl hdirectory
    · exact .inr (Environment.up_not_mem_extend hnames up)
  have hjar : toolsJar? after (Jdk.probe host env home).effectiveHome (host.absoluteClasspath env) =
      toolsJar? env (Jdk.probe host env home).effectiveHome (host.absoluteClasspath env) := by
    rcases hhome : (Jdk.probe host env home).effectiveHome with - | wanted
    · rfl
    · rw [toolsJar?, toolsJar?, Option.map_some, Option.filter_some, Option.filter_some,
        hfilter wanted hhome]
  simp only [ProbeReport.ofHost, hjdk, again.classpath, hjar]

namespace Resolution

/-- **The report foretells the resolution.**  Of every host, and of a JDK home that is left out or
    there, what is reported about the compiler archive is what comes of a configuration once its root
    is settled: in the same environment when the root is configured, and otherwise in one that a
    host with the same answers reports alike. -/
theorem resolve_foretold (config : Compilation) (host : Host) (env : Environment)
    (present : ∀ home, config.jdkHome = some home → env.isDirectory home = true) :
    (∀ directory, config.workingDir = some directory →
      Foretold config (ProbeReport.ofHost host env config.jdkHome) env
        (resolve config host true env)) ∧
    (config.workingDir = none → ∀ path after, Environment.makeTemporary env = .ok path after →
      Foretold config (ProbeReport.ofHost host after config.jdkHome) after
          (resolve config host true env) ∧
        (host.AnswersAgain env after → (Jdk.probe host env config.jdkHome).IsPlaced env →
          ProbeReport.ofHost host after config.jdkHome =
            ProbeReport.ofHost host env config.jdkHome)) := by
  constructor
  · intro directory hdirectory
    have rooted : root config env = .ok directory env := by
      rw [root, hdirectory]
      rfl
    exact foretold_of_root present rooted
  · intro hnone path after hmake
    have rooted : root config env = .ok path after := by
      rw [root, hnone]
      exact hmake
    have made : Environment.MadeTemporary env after := Environment.makeTemporary_ok hmake
    have hgrows : Environment.Grows (fun _ _ => False) env after := made.grows
    refine ⟨foretold_of_root ?_ rooted, ofHost_temporary made⟩
    intro home hhome
    exact hgrows.isDirectory (present home hhome)

/-- A host with a JDK before the module system and nothing on its class path. -/
def oldHost : Host := .fixed [] (some ⟨"/jdk8"⟩) [(⟨"/jdk8"⟩, ⟨8, 0, 292, "1.8.0_292"⟩)]

/-- The home of that JDK, which has no archive. -/
def bareHome : Environment :=
  { (default : Environment) with files := FileTree.empty.insert ["jdk8"] .directory }

def onOldJdk : Compilation := { workingDir := some ⟨"/w"⟩, jdkHome := some ⟨"/jdk8"⟩ }

theorem onOldJdk_foretold :
    (∀ home, onOldJdk.jdkHome = some home → bareHome.isDirectory home = true) ∧
      Foretold onOldJdk (ProbeReport.ofHost oldHost bareHome onOldJdk.jdkHome) bareHome
        (resolve onOldJdk oldHost true bareHome) ∧
      ∃ version after, resolve onOldJdk oldHost true bareHome =
        .error (.missingToolsJar version) after := by
  have present : ∀ home, onOldJdk.jdkHome = some home → bareHome.isDirectory home = true := by
    intro home hhome
    cases hhome
    decide +kernel
  have foretold := (resolve_foretold onOldJdk oldHost bareHome present).1 ⟨"/w"⟩ rfl
  refine ⟨present, foretold, foretold.missing.2 ?_⟩
  decide +kernel

/-- A configuration whose directory of generated Kotlin sources is not there. -/
def misdirected : Compilation :=
  { workingDir := some ⟨"/w"⟩, kaptArgs := [(generatedKotlinOption, "/none")] }

/-- Where no directory for temporary files is, a configuration without a root fails over that, and
    not for want of the archive that is reported missing.  And what is reported as not required comes
    of no resolution when the configuration is refused for something else. -/
theorem unresolved_not_foretold :
    ((ProbeReport.ofHost oldHost default none).toolsJarRequired = true ∧
      (ProbeReport.ofHost oldHost default none).toolsJar = none ∧
      ¬ ∃ version after, resolve {} oldHost true default =
        .error (.missingToolsJar version) after) ∧
    ((ProbeReport.ofHost (.fixed [] none []) default none).toolsJarRequired = false ∧
      ¬ ∃ resolution after, resolve misdirected (.fixed [] none []) true default =
        .ok resolution after ∧ resolution.toolsJar = none) := by
  refine ⟨⟨by decide +kernel, by decide +kernel, ?_⟩, by decide +kernel, ?_⟩
  · rintro ⟨version, after, h⟩
    have hother : (match resolve {} oldHost true default with
        | .error (.missingToolsJar _) _ => true
        | _ => false) = false := by decide +kernel
    rw [h] at hother
    cases hother
  · rintro ⟨resolution, after, h, -⟩
    have hnone : succeedsWith (fun _ _ => true)
        (resolve misdirected (.fixed [] none []) true default) = false := by decide +kernel
    rw [h] at hnone
    cases hnone

end Resolution

end KotlinHarness
