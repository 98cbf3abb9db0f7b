/-
  Files put below an empty directory.

  Below the directory there are the files put there so far, with the directories above them, and
  nothing else (`Copied`).  That is so at first, when there are none, and putting one more file there
  adds it to them (`Copied.deposit`).  So what is listed below the directory in the end are these
  files (`Copied.mem_places_iff`), and each can be read (`Copied.readText`).
-/
import KotlinHarness.Proofs.Files.Planting
import KotlinHarness.Proofs.Files.Relisting

namespace KotlinHarness

variable {env after : Environment} {target : Path} {there : Location} {children : Forest}
  {done : List (Location × FileData)} {found : Location × FileData} {content : String}

/-- No file of a list stands at a place, nor above it or below it. -/
def Apart (done : List (Location × FileData)) (names : Location) : Prop :=
  ∀ other ∈ done, ¬ other.1 <+: names ∧ ¬ names <+: other.1

/-- Below a directory there are certain files, with the directories above them, and nothing else. -/
structure Copied (target : Path) (there : Location) (done : List (Location × FileData))
    (env : Environment) : Prop where
  base : ∃ children, env.locate target = .ok (there, .directory children)
  files : ∀ below data, env.look (there ++ below) = some (.file data) ↔
    ∃ found ∈ done, found.1 = below ∧ data = ⟨found.2.bytes, .plain⟩
  directories : ∀ below, env.look (there ++ below) = some .directory →
    below = [] ∨ ∃ found ∈ done, below <+: found.1

theorem copied_nil (h : env.locate target = .ok (there, .directory .nil)) :
    Copied target there [] env := by
  have hlook := Environment.look_append (Environment.get?_of_locate h)
  have hnone : ∀ below, below ≠ [] → env.look (there ++ below) = none := by
    intro below hne
    obtain ⟨name, more, rfl⟩ := List.exists_cons_of_ne_nil hne
    rw [hlook, Forest.look_cons]
    rfl
  refine ⟨⟨_, h⟩, fun below data => ⟨fun hfile => ?_, ?_⟩, fun below hdirectory => ?_⟩
  · by_cases hne : below = []
    · rw [hne, hlook, Forest.look_nil] at hfile
      cases hfile
    · rw [hnone below hne] at hfile
      cases hfile
  · rintro ⟨found, hm, -⟩
    cases hm
  · by_contra hne
    rw [hnone below fun hnil => hne (.inl hnil)] at hdirectory
    cases hdirectory

/-- One more file. -/
theorem Copied.plant (h : Copied target there done env)
    (planted : Environment.Planted there found.1 content env after)
    (bytes : Text.encode content = found.2.bytes)
    (apart : Apart done found.1) :
    Copied target there (done ++ [found]) after := by
  have hfile : after.look (there ++ found.1) = some (.file ⟨found.2.bytes, .plain⟩) := by
    rw [planted.file, bytes]
  -- Away from the new file everything is as it was.
  have hothers : ∀ below, ¬ below <+: found.1 →
      after.look (there ++ below) = env.look (there ++ below) := by
    intro below hfree
    refine planted.others _ fun above honway heq => ?_
    rw [List.append_cancel_left heq] at hfree
    exact hfree honway
  obtain ⟨children, hbase⟩ := h.base
  refine ⟨planted.grows.locate_directory hbase, fun below data => ?_, fun below hdirectory => ?_⟩
  · constructor
    · intro hdata
      by_cases honway : below <+: found.1
      · by_cases heq : below = found.1
        · rw [heq, hfile] at hdata
          cases hdata
          exact ⟨found, List.mem_append_right _ List.mem_cons_self, heq.symm, rfl⟩
        · rw [planted.directory honway heq] at hdata
          cases hdata
      · rw [hothers below honway] at hdata
        obtain ⟨other, hm, hother⟩ := (h.files below data).1 hdata
        exact ⟨other, List.mem_append_left _ hm, hother⟩
    · rintro ⟨other, hm, rfl, rfl⟩
      rcases List.mem_append.1 hm with hm | hm
      · rw [hothers _ (apart other hm).1]
        exact (h.files _ _).2 ⟨other, hm, rfl, rfl⟩
      · rw [List.mem_singleton.1 hm]
        exact hfile
  · by_cases honway : below <+: found.1
    · exact .inr ⟨found, List.mem_append_right _ List.mem_cons_self, honway⟩
    · rw [hothers below honway] at hdirectory
      rcases h.directories below hdirectory with hnil | ⟨other, hm, hother⟩
      · exact .inl hnil
      · exact .inr ⟨other, List.mem_append_left _ hm, hother⟩

/-- Nothing stands in the way of another file. -/
theorem Copied.clear (h : Copied target there done env) (hne : found.1 ≠ [])
    (apart : Apart done found.1) :
    env.Clear there found.1 ∧ env.look (there ++ found.1) = none := by
  have hclear : env.Clear there found.1 := by
    intro above honway data hfile
    obtain ⟨other, hm, rfl, -⟩ := (h.files above data).1 hfile
    exact (apart other hm).1 honway
  refine ⟨hclear, ?_⟩
  rcases hlook : env.look (there ++ found.1) with - | (data | _)
  · rfl
  · exact absurd hlook (hclear _ (List.prefix_refl _) data)
  · rcases h.directories _ hlook with hnil | ⟨other, hm, honway⟩
    · exact absurd hnil hne
    · exact absurd honway (apart other hm).2

/-- One more file is put below the directory. -/
theorem Copied.deposit (h : Copied target there done env) (hne : found.1 ≠ [])
    (fits : Environment.Fits found.1)
    (fine : Environment.pathFault? (target.extend found.1) = none) (apart : Apart done found.1)
    (bytes : Text.encode content = found.2.bytes) (overwrite : Overwrite) :
    ∃ after, Environment.deposit overwrite (target.extend found.1) content env = .ok .written after ∧
      Copied target there (done ++ [found]) after ∧
      Environment.Grows (fun location _ => location = there ++ found.1) env after := by
  obtain ⟨children, hbase⟩ := h.base
  obtain ⟨clear, free⟩ := h.clear hne apart
  obtain ⟨init, name, hnames⟩ : ∃ init name, found.1 = init ++ [name] :=
    ⟨_, _, (List.dropLast_append_getLast hne).symm⟩
  rw [hnames] at fits fine clear free
  obtain ⟨after, hdeposit, planted⟩ :=
    Environment.deposit_new hbase fits fine clear free overwrite content
  rw [← hnames] at hdeposit planted
  exact ⟨after, hdeposit, h.plant planted bytes apart, planted.grows⟩

/-- What is listed below the directory are the files put there. -/
theorem Copied.mem_places_iff (h : Copied target there done env)
    (hlocate : env.locate target = .ok (there, .directory children)) (below : Location) :
    below ∈ children.files.map (·.1) ↔ below ∈ done.map (·.1) := by
  rw [Environment.mem_files_iff_look hlocate, List.mem_map]
  constructor
  · rintro ⟨data, hfile⟩
    obtain ⟨found, hm, heq, -⟩ := (h.files below data).1 hfile
    exact ⟨found, hm, heq⟩
  · rintro ⟨found, hm, rfl⟩
    exact ⟨_, (h.files _ _).2 ⟨found, hm, rfl, rfl⟩⟩

/-- Each of them can be read. -/
theorem Copied.readText (h : Copied target there done env) (hm : found ∈ done)
    (fits : Environment.Fits found.1)
    (fine : Environment.pathFault? (target.extend found.1) = none)
    (bytes : Text.encode content = found.2.bytes) :
    env.readText (target.extend found.1) = .ok content := by
  obtain ⟨children, hbase⟩ := h.base
  have hlook := (h.files found.1 _).2 ⟨found, hm, rfl, rfl⟩
  refine Environment.readText_of_read ?_
  rw [Environment.read, Environment.locate_extend hbase fits.isFileName fine,
    Environment.follow_there fits (FileTree.look_file_iff.1 hlook), bytes]

end KotlinHarness
