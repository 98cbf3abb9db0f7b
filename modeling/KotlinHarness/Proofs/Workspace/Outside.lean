/-
  What stays out of the directories for generated sources.

  A stage is handed whatever is listed below such a directory, so what it is handed depends on who
  else writes there.  Where a path leads is told by its spelling (`Path.aim`), and with it whether a
  file will be among the generated sources of a language: it is outside, or it is not, before
  anything is created (`Filer.IsOutside`).

    * `Gains.listed_iff`   where all files were outside when the filer began, what is listed in the
                           end is what it created
    * `prepare_spares`     settling and staging leave all files outside, as long as the units are
                           staged outside
    * `written_outside`    which they are for the workspace's own directories
-/
import KotlinHarness.Proofs.Processing.Generated
import KotlinHarness.Proofs.Workspace.Framed
import KotlinHarness.Proofs.Workspace.Restaged
import KotlinHarness.Proofs.Workspace.Temporary

namespace KotlinHarness

variable {σ : Type} {origin location : Location} {language : Language}

/-! ## Outside and inside -/

namespace Filer

variable {filer : Filer}

/-- A file at the location is no source, or not below the directory for sources of its language. -/
def IsOutside (filer : Filer) (origin location : Location) : Prop :=
  ∀ before name language, location = before ++ [name] →
    (Path.splitName name).2.bind Language.ofExtension? = some language →
    ¬ (filer.directory language).aim origin <+: location

/-- No source is below the directory for sources of its language. -/
def IsBare (filer : Filer) (env : Environment) : Prop :=
  ∀ location data, env.look location = some (.file data) →
    filer.IsOutside env.workingDirectory location

/-- No source came to be below the directory for sources of its language. -/
structure Spares (filer : Filer) (old new : Environment) : Prop where
  workingDirectory : new.workingDirectory = old.workingDirectory
  bare : filer.IsBare old → filer.IsBare new

theorem spares_composes (filer : Filer) : Composes filer.Spares where
  refl _ := ⟨rfl, id⟩
  trans h h' := ⟨h'.workingDirectory.trans h.workingDirectory, h'.bare ∘ h.bare⟩

/-- What is not below a directory is outside. -/
theorem isOutside_of_apart
    (apart : ∀ language, ¬ (filer.directory language).aim origin <+: location) :
    filer.IsOutside origin location :=
  fun _ _ language _ _ => apart language

/-- The listing of plugins is no source. -/
theorem isOutside_listing (directory : Path) :
    filer.IsOutside origin ((Plugin.listing directory).aim origin) := by
  intro before name language hlocation hlanguage
  rw [Plugin.listing, Path.aim_div _ _ (by decide)] at hlocation
  obtain ⟨-, hname⟩ := List.append_inj' hlocation rfl
  cases hname
  exact absurd hlanguage (by cases language <;> decide +kernel)

/-- Nothing is below directories that are not there. -/
theorem isBare_of_missing {env : Environment}
    (missing : ∀ language, env.look ((filer.directory language).aim env.workingDirectory) = none) :
    filer.IsBare env := by
  intro location data hfile
  refine isOutside_of_apart fun language hprefix => ?_
  obtain ⟨below, rfl⟩ := hprefix
  have hmissing := missing language
  rcases below with - | ⟨name, rest⟩
  · rw [List.append_nil, hmissing] at hfile
    cases hfile
  · have hpresent : env.files.look ((filer.directory language).aim env.workingDirectory ++
        name :: rest) ≠ none := by
      rw [← Environment.look, hfile]
      exact Option.some_ne_none _
    have hdirectory := FileTree.look_of_look_append (List.cons_ne_nil name rest) hpresent
    rw [← Environment.look, hmissing] at hdirectory
    cases hdirectory

end Filer

namespace Environment

variable {old new : Environment} {filer : Filer} {created : List Path} {path : Path}

/-- Files that change outside leave the directories as bare as they were. -/
theorem Grows.spares_directories
    (h : Grows (fun location _ => filer.IsOutside old.workingDirectory location) old new) :
    filer.Spares old new := by
  refine ⟨h.workingDirectory, fun bare location data hlook => ?_⟩
  rw [h.workingDirectory]
  rcases h.changed hlook with hold | houtside
  · exact bare location data hold
  · exact houtside

/-- A text that is put outside leaves the directories as bare as they were. -/
theorem Deposited.spares {content : String} (h : Deposited path content old new)
    (outside : filer.IsOutside old.workingDirectory (path.aim old.workingDirectory)) :
    filer.Spares old new := by
  refine Grows.spares_directories (h.grows.mono ?_)
  rintro location data ⟨hleads, -⟩
  rw [aim_of_leadsTo hleads, h.grows.workingDirectory]
  exact outside

/-- A file that was created for a type is inside. -/
theorem Gains.inside (h : Gains created old new)
    (nonempty : (filer.directory language).isEmpty = false) (hm : path ∈ created)
    (places : filer.Places language path) :
    ¬ filer.IsOutside old.workingDirectory (path.aim old.workingDirectory) := by
  obtain ⟨before, stem, hpath, hnames, hstem⟩ := places.below
  obtain ⟨location, data, hleads, -⟩ := h.files path hm
  have haim := aim_of_leadsTo hleads
  rw [hpath] at hleads
  obtain ⟨here, hhere, rfl⟩ := leadsTo_extend nonempty hnames hleads
  rw [h.grows.workingDirectory] at haim
  rw [← haim]
  intro houtside
  refine houtside (here ++ before) _ language (List.append_assoc _ _ _).symm
    (Filer.language_of_stem hstem) ?_
  rw [← h.grows.workingDirectory, ← aim_of_leadsTo hhere]
  exact List.prefix_append _ _

/-- Where all files were outside, the sources listed are those that the filer created for a type of
    the language. -/
theorem Gains.listed_iff (h : Gains created old new) (proper : new.ProperNames)
    (nonempty : ∀ language, (filer.directory language).isEmpty = false)
    (types : ∀ path ∈ created, ∃ language, filer.Places language path)
    (bare : filer.IsBare old) :
    path ∈ findSources new (filer.directory language) language ↔
      path ∈ created ∧ filer.Places language path := by
  constructor
  · intro hm
    rcases h.only proper nonempty types hm with hcreated | ⟨here, below, data, hhere, rfl, hold⟩
    · exact hcreated
    · obtain ⟨data', hnew⟩ := h.grows.files hold
      have hbelow : ∀ name ∈ below, IsFileName name := fun name hname =>
        proper _ _ hnew name (List.mem_append_right _ hname)
      obtain ⟨before, name, hlocation, hlanguage⟩ := language_of_listed hbelow hhere hnew
      rw [(mem_findSources_iff.1 hm).1] at hlanguage
      refine absurd ?_ (bare _ data hold before name language hlocation hlanguage.symm)
      rw [← h.grows.workingDirectory, ← aim_of_leadsTo hhere]
      exact List.prefix_append _ _
  · rintro ⟨hm, places⟩
    exact h.listed (nonempty language) hm places

end Environment

open Environment

/-! ## Before processors are called -/

/-- The empty Kotlin source is written when there are no Kotlin units. -/
theorem Stage.kaptSources_spares {filer : Filer} {workspace : Workspace} {staged sources : List Path}
    {env after : Environment}
    (placeholder : staged = [] → filer.IsOutside env.workingDirectory
      ((placeholderPath workspace).aim env.workingDirectory))
    (h : kaptSources workspace staged env = .ok sources after) : filer.Spares env after := by
  rw [kaptSources] at h
  split at h
  · next hnone =>
    obtain ⟨path, middle, hplaceholder, hpure⟩ := of_bind_ok h
    cases hpure
    obtain ⟨_, _, hdeposit, hpure⟩ := of_bind_ok hplaceholder
    cases hpure
    exact (deposit_ok hdeposit).spares (placeholder (List.isEmpty_iff.1 hnone))
  · cases h
    exact (Filer.spares_composes filer).refl env

theorem Plugin.register_spares {filer : Filer} {directory : Path} {env after : Environment}
    (h : register directory env = .ok () after) : filer.Spares env after := by
  rw [register] at h
  obtain ⟨_, _, hdeposit, hpure⟩ := of_bind_ok h
  cases hpure
  exact (deposit_ok (environmentDuring_ok hdeposit)).spares (Filer.isOutside_listing _)

/-! ## Settling and staging -/

/-- Settling a configuration makes directories at most. -/
theorem Resolution.resolve_grows (may : Location → FileData → Prop) {config : Compilation}
    {host : Host} {needsKapt : Bool} {env after : Environment} {resolution : Resolution}
    (h : resolve config host needsKapt env = .ok resolution after) : Grows may env after := by
  obtain ⟨path, hroot, -⟩ := inWorkspace_of_resolve h
  rcases hdirectory : config.workingDir with - | directory
  · rw [root, hdirectory] at hroot
    exact makeTemporary_grows may hroot
  · rw [root, hdirectory] at hroot
    cases hroot
    exact .refl env

namespace SourceUnit

variable {unit : SourceUnit} {units : List SourceUnit} {root : Path} {source : StagedSource}
  {staged : List StagedSource} {env after : Environment}

theorem stage_aimed (h : unit.stage root env = .ok source after) :
    Grows (fun location _ => location = unit.place root env.workingDirectory) env after := by
  rw [stage] at h
  obtain ⟨done, middle, hdeposit, hsource⟩ := of_bind_ok h
  cases hsource
  have hgrows := (deposit_ok (environmentDuring_ok hdeposit)).grows
  refine hgrows.mono ?_
  rintro location data ⟨hleads, -⟩
  rw [place, aim_of_leadsTo hleads, hgrows.workingDirectory]

/-- Units change files at their places. -/
theorem stageAll_aimed (h : stageAll root units env = .ok staged after) :
    Grows (fun location _ => ∃ unit ∈ units, location = unit.place root env.workingDirectory)
      env after := by
  induction units generalizing staged env with
  | nil =>
    cases h
    exact .refl _
  | cons unit rest ih =>
    obtain ⟨_, others, middle, -, hstage, hothers⟩ := stageAll_cons h
    have hfirst := stage_aimed hstage
    have hrest := ih hothers
    rw [hfirst.workingDirectory] at hrest
    refine (hfirst.mono fun location _ hat => ?_).trans (hrest.mono ?_)
    · exact ⟨unit, List.mem_cons_self, hat⟩
    · rintro location data ⟨other, hm, hat⟩
      exact ⟨other, List.mem_cons_of_mem _ hm, hat⟩

end SourceUnit

/-- The filer of a compile call, before anything was created. -/
def Resolution.filer (resolution : Resolution) : Filer :=
  .start resolution.workspace.generatedJava resolution.generatedKotlinDir

/-- The paths at which the units of a language are staged, in the order of the configuration. -/
def Resolution.unitPaths (resolution : Resolution) (language : Language) : List Path :=
  SourceUnit.pathsOf resolution.workspace.sources language resolution.config.sources

namespace Harness

/-- What a call writes for its compilers before processors are called: the units, and the empty
    Kotlin source when there are processors and no Kotlin units. -/
def written (harness : Harness σ) (resolution : Resolution) : List Path :=
  (resolution.config.sources.map fun unit => resolution.workspace.sources.join unit.path) ++
    if harness.needsKapt && (resolution.unitPaths .kotlin).isEmpty then
      [Stage.placeholderPath resolution.workspace]
    else []

theorem unitPaths_written (harness : Harness σ) {resolution : Resolution} {path : Path}
    (hm : path ∈ resolution.unitPaths language) : path ∈ harness.written resolution := by
  obtain ⟨unit, hunit, rfl⟩ := List.mem_map.1 hm
  exact List.mem_append_left _ (List.mem_map_of_mem (List.mem_filter.1 hunit).1)

theorem placeholder_written {harness : Harness σ} {resolution : Resolution}
    (processors : harness.processors ≠ []) (hnone : resolution.unitPaths .kotlin = []) :
    Stage.placeholderPath resolution.workspace ∈ harness.written resolution := by
  have needed : harness.needsKapt = true := by simp [needsKapt, processors]
  refine List.mem_append_right _ ?_
  rw [needed, hnone]
  exact List.mem_singleton_self _

/-- Settling a configuration and staging its units leaves the directories for generated sources as
    bare as they were, where the units are staged outside. -/
theorem prepare_spares {harness : Harness σ} {env after : Environment} {resolution : Resolution}
    {staged : List StagedSource} (h : harness.prepare env = .ok (resolution, staged) after)
    (apart : ∀ path ∈ harness.written resolution,
      resolution.filer.IsOutside env.workingDirectory (path.aim env.workingDirectory)) :
    resolution.filer.Spares env after := by
  obtain ⟨settled, created, hresolve, hcreate, hstaged⟩ := prepare_eq_ok.1 h
  let outside (location : Location) (_ : FileData) : Prop :=
    resolution.filer.IsOutside env.workingDirectory location
  have hcreated : Grows outside env created :=
    (Resolution.resolve_grows _ hresolve).trans ((Workspace.keeps_createAll _ _).of_ok hcreate)
  have haimed := SourceUnit.stageAll_aimed hstaged
  rw [hcreated.workingDirectory] at haimed
  have houtside : Grows outside env after := by
    refine hcreated.trans (haimed.mono ?_)
    rintro location data ⟨unit, hm, rfl⟩
    exact apart _ (List.mem_append_left _ (List.mem_map_of_mem hm))
  exact houtside.spares_directories

/-- What a call writes is outside when generated Kotlin sources go to the workspace's own directory,
    however the units were made. -/
theorem written_outside {harness : Harness σ} {resolution : Resolution}
    (own : resolution.generatedKotlinDir = resolution.workspace.generatedKotlin)
    (built : ∀ unit ∈ resolution.config.sources, unit.IsBuilt) :
    ∀ path ∈ harness.written resolution,
      resolution.filer.IsOutside origin (path.aim origin) := by
  have hkapt : resolution.workspace.kapt.aim origin =
      resolution.workspace.root.aim origin ++ ["kapt"] := Path.aim_div _ _ (by decide)
  have hdirectory : ∀ language, ∃ name ∈ ["sources", "kotlinGenerated"],
      (resolution.filer.directory language).aim origin =
        resolution.workspace.root.aim origin ++ ["kapt", name] := by
    have below : ∀ name, IsFileName name → (resolution.workspace.kapt / name).aim origin =
        resolution.workspace.root.aim origin ++ ["kapt", name] := by
      intro name hname
      rw [Path.aim_div _ _ hname, hkapt, List.append_assoc]
      rfl
    rintro (- | -)
    · refine ⟨"kotlinGenerated", by decide, ?_⟩
      show resolution.generatedKotlinDir.aim origin = _
      rw [own]
      exact below _ (by decide)
    · exact ⟨"sources", by decide, below _ (by decide)⟩
  intro path hm
  refine Filer.isOutside_of_apart fun language hprefix => ?_
  obtain ⟨name, hname, hdirectory⟩ := hdirectory language
  rw [hdirectory] at hprefix
  rcases List.mem_append.1 hm with hm | hm
  · obtain ⟨unit, hunit, rfl⟩ := List.mem_map.1 hm
    obtain ⟨relative, down⟩ := (built unit hunit).stays
    rw [Path.aim_join _ _ relative down, Workspace.sources, Path.aim_div _ _ (by decide),
      List.append_assoc, List.prefix_append_right_inj] at hprefix
    simp at hprefix
  · split at hm
    · rw [List.mem_singleton.1 hm, Stage.placeholderPath, Path.aim_div _ _ (by decide),
        Workspace.placeholder, Path.aim_div _ _ (by decide), hkapt, List.append_assoc,
        List.append_assoc, List.prefix_append_right_inj] at hprefix
      rcases List.mem_cons.1 hname with rfl | hname
      · simp at hprefix
      · rw [List.mem_singleton.1 hname] at hprefix
        simp at hprefix
    · exact absurd hm List.not_mem_nil

end Harness

end KotlinHarness
