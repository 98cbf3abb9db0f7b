/-
  Where the files are that processors create, and which files are there.

  The filer names a file after a type: the parts of the dotted name become directories, the last
  one gets the extension of the language.  As long as there is no slash in the name, the file stands
  below the directory of the language (`Places.below`).

  `Gains created` is what happens to an environment while sources are created: they are there in the
  end, and no other source is new or has changed.  The listing of a directory then has what was
  created for it, and what stood there before (`Gains.listed`, `Gains.only`).
-/
import KotlinHarness.Proofs.Files.Listing
import KotlinHarness.Proofs.Processing.Filing

namespace KotlinHarness

namespace Language

theorem isEntry_extension (language : Language) : Path.IsEntry language.extension := by
  cases language <;> exact Path.isEntry_of_plain (by decide)

theorem dot_not_mem_extension (language : Language) : '.' ∉ language.extension.toList := by
  cases language <;> decide

end Language

namespace Filer

variable {filer : Filer} {language : Language} {path : Path}

/-- The file of a type of the language; there are no slashes in the type's name. -/
def Places (filer : Filer) (language : Language) (path : Path) : Prop :=
  ∃ name, Path.IsSegment name ∧ filer.place? language name = some path

theorem parts_ne_nil {name : String} {parts : List String} (h : nameParts? name = some parts) :
    parts ≠ [] := by
  simp only [nameParts?] at h
  split at h
  · cases h
  · cases h
    rw [Ne, List.map_eq_nil_iff]
    exact Text.splitWhere_ne_nil _ _

/-- A part of a name is a piece of it with something in it, and no dot. -/
theorem of_mem_parts {name part : String} {parts : List String} (h : nameParts? name = some parts)
    (hm : part ∈ parts) :
    part ≠ "" ∧ '.' ∉ part.toList ∧ ∀ c ∈ part.toList, c ∈ name.toList := by
  simp only [nameParts?] at h
  split at h
  · cases h
  · next hfull =>
    cases h
    refine ⟨?_, ?_⟩
    · rintro rfl
      exact hfull (List.any_eq_true.2 ⟨"", hm, rfl⟩)
    · obtain ⟨piece, hpiece, rfl⟩ := List.mem_map.1 hm
      rw [String.toList_ofList]
      exact ⟨Text.not_mem_of_mem_splitOn hpiece, fun c hc => Text.mem_of_mem_splitOn hpiece hc⟩

/-- The parts of a name without slashes are names of directories. -/
theorem isFileName_of_part {name part : String} {parts : List String} (h : Path.IsSegment name)
    (hparts : nameParts? name = some parts) (hm : part ∈ parts) :
    Environment.IsFileName part ∧ '.' ∉ part.toList := by
  obtain ⟨nonempty, hdot, hpart⟩ := of_mem_parts hparts hm
  exact ⟨Environment.isFileName_of_dot ⟨fun hc => h (hpart _ hc), nonempty⟩ hdot, hdot⟩

/-- The file of a type is below the directory of the language, at the end of names that go down. -/
structure Below (filer : Filer) (language : Language) (path : Path) (before : List String)
    (stem : String) : Prop where
  path_eq : path = (filer.directory language).extend
    (before ++ [stem ++ "." ++ language.extension])
  names : ∀ name ∈ before ++ [stem ++ "." ++ language.extension], Environment.IsFileName name
  nonempty : stem ≠ ""

/-- The last part of the name gives the file its name. -/
theorem below_of_place {name : String} (hname : Path.IsSegment name)
    (h : filer.place? language name = some path) :
    ∃ before stem, nameParts? name = some (before ++ [stem]) ∧
      filer.Below language path before stem := by
  rw [place?, Option.map_eq_some_iff] at h
  obtain ⟨parts, hparts, rfl⟩ := h
  obtain ⟨before, stem, rfl⟩ :=
    (List.eq_nil_or_concat parts).resolve_left (parts_ne_nil hparts)
  rw [List.concat_eq_append] at hparts ⊢
  have hpart : ∀ part ∈ before ++ [stem],
      Environment.IsFileName part ∧ '.' ∉ part.toList := by
    intro part hm
    exact isFileName_of_part hname hparts hm
  obtain ⟨hstem, hdot⟩ := hpart stem (List.mem_append_right _ List.mem_cons_self)
  refine ⟨before, stem, hparts, ?_, ?_, hstem.entry.nonempty⟩
  · rw [Path.extend_concat, Path.extend_concat,
      Path.withExtension_div hstem.entry hdot language.isEntry_extension.segment]
  · intro other hm
    rcases List.mem_append.1 hm with hm | hm
    · exact (hpart other (List.mem_append_left _ hm)).1
    · rw [List.mem_singleton.1 hm]
      exact Environment.isFileName_extension hstem.entry language.isEntry_extension

theorem Places.below (h : filer.Places language path) :
    ∃ before stem, filer.Below language path before stem := by
  obtain ⟨name, hname, hplace⟩ := h
  obtain ⟨before, stem, -, hbelow⟩ := below_of_place hname hplace
  exact ⟨before, stem, hbelow⟩

/-- The name of a type's file tells its language. -/
theorem language_of_stem {stem : String} (nonempty : stem ≠ "") :
    (Path.splitName (stem ++ "." ++ language.extension)).2.bind Language.ofExtension? =
      some language := by
  rw [Path.splitName_append nonempty language.dot_not_mem_extension]
  exact Language.ofExtension?_extension language

end Filer

namespace Environment

variable {created : List Path} {old middle new : Environment} {filer : Filer} {language : Language}
  {path : Path}

/-! ## Gaining files -/

/-- Source files were created, and other sources stayed what they were. -/
structure Gains (created : List Path) (old new : Environment) : Prop where
  grows : Grows (fun location _ => (∃ path ∈ created, new.LeadsTo path location) ∨
    ¬ IsSource location) old new
  files : ∀ path ∈ created, ∃ location data, new.LeadsTo path location ∧
    new.look location = some (.file data)

theorem Gains.of_grows (h : Grows (fun location _ => ¬ IsSource location) old new) :
    Gains [] old new :=
  ⟨h.mono fun _ _ hmay => .inr hmay, fun _ hm => absurd hm List.not_mem_nil⟩

theorem Gains.refl (env : Environment) : Gains [] env env := .of_grows (.refl env)

theorem Gains.trans {more : List Path} (h : Gains created old middle) (h' : Gains more middle new) :
    Gains (created ++ more) old new := by
  have grows : Grows (fun location _ => (∃ path ∈ created ++ more, new.LeadsTo path location) ∨
      ¬ IsSource location) old middle := by
    -- What leads somewhere in between still does so in the end.
    refine h.grows.mono fun location data hmay => hmay.imp ?_ id
    rintro ⟨path, hm, hleads⟩
    exact ⟨path, List.mem_append_left _ hm, h'.grows.leadsTo hleads⟩
  have grows' : Grows (fun location _ => (∃ path ∈ created ++ more, new.LeadsTo path location) ∨
      ¬ IsSource location) middle new := by
    refine h'.grows.mono fun location data hmay => hmay.imp ?_ id
    rintro ⟨path, hm, hleads⟩
    exact ⟨path, List.mem_append_right _ hm, hleads⟩
  refine ⟨grows.trans grows', ?_⟩
  intro path hm
  rcases List.mem_append.1 hm with hm | hm
  · obtain ⟨location, data, hleads, hlook⟩ := h.files path hm
    obtain ⟨data, hlook⟩ := h'.grows.files hlook
    exact ⟨location, data, h'.grows.leadsTo hleads, hlook⟩
  · exact h'.files path hm

theorem Deposited.gains {content : String} (h : Deposited path content old new) :
    Gains [path] old new := by
  constructor
  · refine h.grows.mono ?_
    rintro location data ⟨hleads, -⟩
    exact .inl ⟨path, List.mem_singleton_self path, hleads⟩
  · intro other hm
    rw [List.mem_singleton.1 hm]
    -- The file can be read, so there is one.
    obtain ⟨location, data, text, hlocate, -⟩ := readable_iff.1 ⟨content, h.readText⟩
    obtain ⟨hleads, hlook⟩ := locate_file_iff.1 hlocate
    exact ⟨location, data, hleads, hlook⟩

/-! ## Listing what was gained -/

/-- A file that was created for a type is listed below the directory of its language. -/
theorem Gains.listed (h : Gains created old new) (nonempty : (filer.directory language).isEmpty = false)
    (hm : path ∈ created) (places : filer.Places language path) :
    path ∈ findSources new (filer.directory language) language := by
  obtain ⟨before, stem, hpath, hnames, hstem⟩ := places.below
  obtain ⟨location, data, hleads, hlook⟩ := h.files path hm
  rw [hpath] at hleads
  obtain ⟨here, hhere, rfl⟩ := leadsTo_extend nonempty hnames hleads
  -- The last name on the way is the one the filer made, and has the extension.
  obtain ⟨middle, name, hlocation, hlanguage⟩ := language_of_listed hnames hhere hlook
  rw [← List.append_assoc] at hlocation
  obtain ⟨-, hname⟩ := List.append_inj' hlocation rfl
  cases hname
  refine mem_findSources_iff.2 ⟨?_, here, _, data, hhere, hlook, hpath, ?_⟩
  · rw [hpath, hlanguage, Filer.language_of_stem hstem]
  · obtain ⟨node, hlocate⟩ := hleads
    exact opens_dropLast nonempty hnames (follow_of_locate hlocate).1

/-- A file that was there before, under the path at which it is listed now. -/
def FoundBefore (old new : Environment) (dir path : Path) : Prop :=
  ∃ here below data, new.LeadsTo dir here ∧ path = dir.extend below ∧
    old.look (here ++ below) = some (.file data)

/-- What is listed was created for a type of the language, or it was there before. -/
theorem Gains.only (h : Gains created old new) (proper : new.ProperNames)
    (nonempty : ∀ language, (filer.directory language).isEmpty = false)
    (types : ∀ path ∈ created, ∃ language, filer.Places language path)
    (hm : path ∈ findSources new (filer.directory language) language) :
    path ∈ created ∧ filer.Places language path ∨
      FoundBefore old new (filer.directory language) path := by
  obtain ⟨hwanted, here, below, data, hhere, hlook, rfl, -⟩ := mem_findSources_iff.1 hm
  have hbelow : ∀ name ∈ below, IsFileName name := fun name hname =>
    proper _ _ hlook name (List.mem_append_right _ hname)
  obtain ⟨middle, name, hend, hlanguage⟩ := language_of_listed hbelow hhere hlook
  rw [hwanted] at hlanguage
  rcases h.grows.changed hlook with hold | ⟨path, hcreated, hleads⟩ | hother
  · exact .inr ⟨here, below, data, hhere, rfl, hold⟩
  · -- The file is the one of a type, so it stands where the directory of its language leads.
    obtain ⟨other, hplaces⟩ := types path hcreated
    obtain ⟨before, stem, hpath, hnames, hstem⟩ := hplaces.below
    rw [hpath] at hleads
    obtain ⟨there, hthere, hlocation⟩ := leadsTo_extend (nonempty other) hnames hleads
    -- Its name tells the language, and there is one directory for each.
    rw [hlocation, ← List.append_assoc] at hend
    obtain ⟨-, hname⟩ := List.append_inj' hend rfl
    cases hname
    rw [Filer.language_of_stem hstem] at hlanguage
    cases hlanguage
    obtain rfl := hhere.unique hthere
    rw [List.append_cancel_left hlocation, ← hpath]
    exact .inl ⟨hcreated, hplaces⟩
  · -- What else may have changed is no source.
    exact absurd ⟨middle, name, language, hend, hlanguage.symm⟩ hother

end Environment

end KotlinHarness
