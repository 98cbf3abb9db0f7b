/-
  What staging leaves alone.

  A unit is staged at a place below the root, whichever way it was made: its path neither starts at
  the top nor goes up (`IsBuilt.stays`).  So staging units changes the files at their places and no
  others, and creates directories on the way to them, even if it fails in the middle of it
  (`Framed`).

    * `frames_stageAll`   what units may make of the files, one after the other
    * `stageAll_framed`   what is left alone, and where new directories are
-/
import KotlinHarness.Proofs.Files.Aim
import KotlinHarness.Proofs.Source.Extensions
import KotlinHarness.Workspace.Staging

namespace KotlinHarness

namespace SourceUnit

open Environment

variable {unit : SourceUnit} {units : List SourceUnit} {root : Path} {origin : Location}

/-! ## Paths of units -/

/-- The path of a unit is relative and does not go up. -/
theorem IsBuilt.stays (built : unit.IsBuilt) :
    unit.path.isAbsolute = false ∧ ".." ∉ unit.path.segments := by
  rcases built with ⟨path, content, hmade⟩ | ⟨language, name, content, hmade⟩
  · rw [ofPath] at hmade
    split at hmade
    · next hbelow =>
      cases hmade
      exact (staysBelow_iff.1 hbelow).2
    · cases hmade
  · obtain ⟨hbelow, -, -, hpath⟩ := ofName_ok hmade
    obtain ⟨-, relative, hup⟩ := staysBelow_iff.1 hbelow
    rw [hpath]
    split
    · exact ⟨relative, hup⟩
    · rcases hlast : (Path.mk name).splitLast? with - | ⟨before, last⟩
      · rw [Path.withExtension, hlast]
        exact ⟨relative, hup⟩
      · obtain ⟨hwhole, hne, -, hextension, hname⟩ := segments_of_stem language hup hlast
        refine ⟨(Path.withExtension_join (p := ⟨""⟩) relative hlast hne hextension).1, fun hm => ?_⟩
        obtain ⟨-, idle, hsegments⟩ := Path.segments_of_splitLast? hlast
        rw [hwhole] at hm
        rcases List.mem_append.1 hm with hm | hm
        · exact hup (hsegments ▸ List.mem_append_left _ hm)
        · exact hname.isName.2 (List.mem_singleton.1 hm).symm

/-- Where a unit is staged, seen from a working directory. -/
def place (root : Path) (origin : Location) (unit : SourceUnit) : Location :=
  (root.join unit.path).aim origin

/-! ## Frames -/

/-- The files that units may make: each at the place of a unit, with the content of it. -/
def MayMake (root : Path) (origin : Location) (units : List SourceUnit) (location : Location)
    (data : FileData) : Prop :=
  ∃ unit ∈ units, location = unit.place root origin ∧ data.bytes = Text.encode unit.content

/-- Where units may need directories: on the way to the root, and from there to the unit. -/
def MayFound (root : Path) (origin : Location) (units : List SourceUnit) (location : Location) :
    Prop :=
  root.OnWay origin location ∨
    ∃ unit ∈ units, ∃ above below, unit.path.steps = above ++ below ∧ below ≠ [] ∧
      location = root.aim origin ++ above

theorem frames_stage (hm : unit ∈ units) (built : unit.IsBuilt) :
    Keeps (FrameAt origin (MayMake root origin units) (MayFound root origin units))
      (unit.stage root) := by
  obtain ⟨relative, down⟩ := built.stays
  refine frameAt_composes.keeps_bind (fun env => ?_) fun _ => frameAt_composes.keeps_pure _
  have above : ∀ q, (root.join unit.path).Above q → MayFound root origin units (q.aim origin) := by
    intro q hq
    refine (Path.aim_above_join relative down hq).imp id ?_
    rintro ⟨above, below, hsteps, hbelow, haim⟩
    exact ⟨unit, hm, above, below, hsteps, hbelow, haim⟩
  have hkeeps : Keeps (FrameAt origin (MayMake root origin units) (MayFound root origin units))
      (deposit .ifChanged (root.join unit.path) unit.content) :=
    frames_deposit (fun data hbytes => ⟨unit, hm, rfl, hbytes⟩) above
  have hdeposit := hkeeps env
  rw [EnvironmentAction.during]
  rcases hresult : deposit .ifChanged (root.join unit.path) unit.content env with
    ⟨done, after⟩ | ⟨cause, after⟩ <;> rwa [hresult] at hdeposit

theorem frames_stageAll (rest : List SourceUnit) (sub : ∀ unit ∈ rest, unit ∈ units)
    (built : ∀ unit ∈ rest, unit.IsBuilt) :
    Keeps (FrameAt origin (MayMake root origin units) (MayFound root origin units))
      (stageAll root rest) := by
  induction rest with
  | nil => exact frameAt_composes.keeps_pure _
  | cons unit rest ih =>
    obtain ⟨hm, hrest⟩ := List.forall_mem_cons.1 sub
    obtain ⟨hbuilt, hothers⟩ := List.forall_mem_cons.1 built
    exact frameAt_composes.keeps_bind (frames_stage hm hbuilt) fun _ =>
      frameAt_composes.keeps_bind (ih hrest hothers) fun _ => frameAt_composes.keeps_pure _

/-! ## What is left alone -/

/-- What staging units below a root leaves of an environment. -/
structure Framed (root : Path) (units : List SourceUnit) (old new : Environment) : Prop where
  workingDirectory : new.workingDirectory = old.workingDirectory
  /-- A file that is not at the place of a unit is still there, with its content and mode. -/
  kept : ∀ {location data}, old.look location = some (.file data) →
    (∀ unit ∈ units, location ≠ unit.place root old.workingDirectory) →
    new.look location = some (.file data)
  /-- At the place of a unit a file is replaced by a file at most. -/
  files : ∀ {location data}, old.look location = some (.file data) →
    ∃ data, new.look location = some (.file data)
  /-- Other files hold the content of a unit and are at its place. -/
  made : ∀ {location data}, new.look location = some (.file data) →
    old.look location = some (.file data) ∨ MayMake root old.workingDirectory units location data
  /-- The place of a unit is where its path leads. -/
  leads : ∀ unit ∈ units, ∀ {location}, new.LeadsTo (root.join unit.path) location →
    location = unit.place root old.workingDirectory
  /-- It is inside the root. -/
  inside : ∀ unit ∈ units, unit.place root old.workingDirectory =
    root.aim old.workingDirectory ++ unit.path.steps
  directories : ∀ {location}, old.look location = some .directory →
    new.look location = some .directory
  /-- New directories are the root, those above it, and those between the root and a unit. -/
  founded : ∀ {location}, new.look location = some .directory →
    old.look location = some .directory ∨ MayFound root old.workingDirectory units location

/-- **What staging leaves alone**: whether it succeeds or fails on the way, it changes files at the
    places of units only, which are inside the root, and creates directories only at the root, above
    it, and between the root and a unit. -/
theorem stageAll_framed (units : List SourceUnit) (built : ∀ unit ∈ units, unit.IsBuilt)
    (root : Path) (env : Environment) : Framed root units env (finalState (stageAll root units env)) := by
  obtain ⟨hgrows, hfounded⟩ :=
    @frames_stageAll units root env.workingDirectory units (fun _ hm => hm) built env rfl
  refine ⟨hgrows.workingDirectory, fun {location data} hold elsewhere => ?_, hgrows.files,
    hgrows.changed, fun unit hm location hleads => ?_, fun unit hm => ?_, hgrows.directories,
    fun {location} => hfounded location⟩
  · obtain ⟨data', hnew⟩ := hgrows.files hold
    rcases hgrows.changed hnew with hsame | ⟨unit, hm, hplace, -⟩
    · rw [hold] at hsame
      cases hsame
      exact hnew
    · exact absurd hplace (elsewhere unit hm)
  · rw [aim_of_leadsTo hleads, hgrows.workingDirectory, place]
  · obtain ⟨relative, down⟩ := (built unit hm).stays
    exact Path.aim_join root _ relative down

/-- Three units, of which the last one cannot be staged where a file has the name of its directory. -/
def obstructed : List SourceUnit :=
  [⟨⟨"p/A.kt"⟩, "class A", some .kotlin⟩, ⟨⟨"./q//r.txt"⟩, "text", none⟩,
    ⟨⟨"blocked/B.java"⟩, "class B", some .java⟩]

/-- Files beside a root and below it. -/
def obstructedFiles : Environment :=
  let file (content : String) : Leaf := .file ⟨Text.encode content, .plain⟩
  { (default : Environment) with
    files := ((FileTree.empty.withDirectories ["w"]).insert ["w", "blocked"] (file "in the way")).insert
      ["w", "other"] (file "beside") }

/-- Staging creates a directory on a detour and the first two units, and fails at the last one. -/
theorem obstructed_framed :
    let root : Path := ⟨"/v/../w"⟩
    let after := finalState (stageAll root obstructed obstructedFiles)
    (∀ unit ∈ obstructed, unit.IsBuilt) ∧
      succeedsWith (fun _ _ => true) (stageAll root obstructed obstructedFiles) = false ∧
      Framed root obstructed obstructedFiles after ∧
      root.OnWay [] ["v"] ∧ after.isDirectory ⟨"/v"⟩ = true ∧
      after.holds ⟨"/w/q/r.txt"⟩ "text" = true ∧ after.holds ⟨"/w/other"⟩ "beside" = true ∧
      ∃ data, after.look ["w", "blocked"] = some (.file data) := by
  intro root after
  have built : ∀ unit ∈ obstructed, unit.IsBuilt := by
    intro unit hm
    simp only [obstructed, List.mem_cons, List.not_mem_nil, or_false] at hm
    rcases hm with rfl | rfl | rfl
    · exact .inr ⟨.kotlin, "p/A", "class A", by decide +kernel⟩
    · exact .inl ⟨⟨"./q//r.txt"⟩, "text", by decide +kernel⟩
    · exact .inl ⟨⟨"blocked/B.java"⟩, "class B", by decide +kernel⟩
  have framed := stageAll_framed obstructed built root obstructedFiles
  have elsewhere : ∀ unit ∈ obstructed, ["w", "blocked"] ≠ unit.place root [] := by decide +kernel
  exact ⟨built, by decide +kernel, framed, ⟨["", "v"], by decide +kernel, by decide +kernel⟩,
    by decide +kernel, by decide +kernel, by decide +kernel, _, framed.kept rfl elsewhere⟩

end SourceUnit

end KotlinHarness
