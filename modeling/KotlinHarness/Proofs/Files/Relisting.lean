/-
  Listings that are the same.

  A listing is in the order of names, so it is told by which files there are: where two environments
  have the same files below a directory, or those of them that are asked for, they list the same
  (`filter_listFiles_eq`).  What the files hold does not matter, nor do directories without files.
-/
import Mathlib.Data.List.Sort
import KotlinHarness.Proofs.Files.Listing

namespace KotlinHarness

namespace Forest

/-- Every location listed starts with a name in the directory. -/
theorem head_of_mem_files {forest : Forest} {listed : Location × FileData}
    (h : listed ∈ forest.files) : ∃ name ∈ forest.names, ∃ below, listed.1 = name :: below := by
  induction forest with
  | nil => cases h
  | file name data rest ih =>
    rcases List.mem_cons.1 h with rfl | h
    · exact ⟨name, List.mem_cons_self, [], rfl⟩
    · obtain ⟨other, hother, below, heq⟩ := ih h
      exact ⟨other, List.mem_cons_of_mem _ hother, below, heq⟩
  | directory name children rest _ ih =>
    rcases List.mem_append.1 h with h | h
    · obtain ⟨below, -, rfl⟩ := List.mem_map.1 h
      exact ⟨name, List.mem_cons_self, below.1, rfl⟩
    · obtain ⟨other, hother, below, heq⟩ := ih h
      exact ⟨other, List.mem_cons_of_mem _ hother, below, heq⟩

/-- Files are listed in the order of their locations. -/
theorem ascending_files {forest : Forest} (ordered : forest.Ordered) :
    (forest.files.map (·.1)).Pairwise (· < ·) := by
  have later : ∀ {name : String} {rest : Forest} {below location : Location},
      (∀ other ∈ rest.names, name < other) → location ∈ rest.files.map (·.1) →
      name :: below < location := by
    intro name rest below location above hm
    obtain ⟨listed, hlisted, rfl⟩ := List.mem_map.1 hm
    obtain ⟨other, hother, further, heq⟩ := head_of_mem_files hlisted
    rw [heq]
    exact List.cons_lt_cons_iff.2 (.inl (above other hother))
  induction forest with
  | nil => exact List.Pairwise.nil
  | file name data rest ih =>
    exact List.Pairwise.cons (fun location hm => later ordered.1 hm) (ih ordered.2)
  | directory name children rest ihc ih =>
    rw [files, List.map_append, List.pairwise_append]
    refine ⟨?_, ih ordered.2.2, ?_⟩
    · rw [List.map_map, List.pairwise_map]
      have hchildren := ihc ordered.2.1
      rw [List.pairwise_map] at hchildren
      exact hchildren.imp fun hlt => List.cons_lt_cons_iff.2 (.inr ⟨rfl, hlt⟩)
    · intro first hfirst second hsecond
      rw [List.map_map] at hfirst
      obtain ⟨listed, -, rfl⟩ := List.mem_map.1 hfirst
      exact later ordered.1 hsecond

end Forest

namespace Environment

variable {env other : Environment} {dir : Path} {here : Location} {children children' : Forest}

/-- The listing of a directory, by locations. -/
theorem listFiles_eq (h : env.locate dir = .ok (here, .directory children)) :
    env.listFiles dir =
      ((children.files.map (·.1)).filter fun below => opens dir below.dropLast).map dir.extend := by
  rw [listFiles, filesBelow, h, List.filter_map, List.map_map]
  rfl

/-- Where every directory is opened, every file is listed. -/
theorem listFiles_of_opens (h : env.locate dir = .ok (here, .directory children))
    (opened : ∀ below ∈ children.files.map (·.1), opens dir below.dropLast = true) :
    env.listFiles dir = (children.files.map (·.1)).map dir.extend := by
  rw [listFiles_eq h, List.filter_eq_self.2 opened]

/-- A location is listed when there is a file. -/
theorem mem_files_iff_look (h : env.locate dir = .ok (here, .directory children)) (below : Location) :
    below ∈ children.files.map (·.1) ↔ ∃ data, env.look (here ++ below) = some (.file data) := by
  have hget := get?_of_locate h
  have hordered : children.Ordered := Forest.ordered_of_get? env.files.ordered hget
  rw [List.mem_map]
  constructor
  · rintro ⟨⟨location, data⟩, hm, rfl⟩
    exact ⟨data, by rw [look_append hget]; exact (Forest.mem_files_iff hordered).1 hm⟩
  · rintro ⟨data, hlook⟩
    rw [look_append hget] at hlook
    exact ⟨(below, data), (Forest.mem_files_iff hordered).2 hlook, rfl⟩

/-- Where there are the same files of those asked for, the same are listed. -/
theorem filter_listFiles_eq (keep : Path → Bool)
    (h : env.locate dir = .ok (here, .directory children))
    (h' : other.locate dir = .ok (here, .directory children'))
    (same : ∀ below, keep (dir.extend below) = true →
      ((∃ data, env.look (here ++ below) = some (.file data)) ↔
        ∃ data, other.look (here ++ below) = some (.file data))) :
    (env.listFiles dir).filter keep = (other.listFiles dir).filter keep := by
  have hordered : children.Ordered := Forest.ordered_of_get? env.files.ordered (get?_of_locate h)
  have hordered' : children'.Ordered := Forest.ordered_of_get? other.files.ordered (get?_of_locate h')
  have hmap : ∀ locations : List Location, (locations.map dir.extend).filter keep =
      (locations.filter (keep ∘ dir.extend)).map dir.extend := fun _ => List.filter_map
  rw [listFiles_eq h, listFiles_eq h', hmap, hmap]
  refine congrArg (List.map dir.extend) ?_
  refine List.Pairwise.eq_of_mem_iff (((Forest.ascending_files hordered).filter _).filter _)
    (((Forest.ascending_files hordered').filter _).filter _) fun below => ?_
  simp only [List.mem_filter, mem_files_iff_look h, mem_files_iff_look h']
  constructor
  · rintro ⟨⟨hfile, hopens⟩, hkeep⟩
    exact ⟨⟨(same below hkeep).1 hfile, hopens⟩, hkeep⟩
  · rintro ⟨⟨hfile, hopens⟩, hkeep⟩
    exact ⟨⟨(same below hkeep).2 hfile, hopens⟩, hkeep⟩

end Environment

end KotlinHarness
