/-
  Loading a tree of sources.

  Loading walks through everything below a root: directories are listed, files are read and become
  units.  Below a root at which names lead down as they should, and with files that are text, it
  succeeds and gives one unit for each file, in the order of the files (`loadSources_eq`).

    * `places_listing`         the files among everything that is listed
    * `mem_listing_iff_look`   the directories among it
-/
import KotlinHarness.Manifest.Manifest
import KotlinHarness.Proofs.Files.Planting

namespace KotlinHarness

/-! ## Everything below a directory -/

namespace Forest

/-- The place of a listed file. -/
def placeOf? (entry : Location × Bool) : Option Location := if entry.2 then none else some entry.1

/-- The files of a listing, in order. -/
theorem places_listing (forest : Forest) :
    forest.listing.filterMap placeOf? = forest.files.map (·.1) := by
  have hdeeper : ∀ (name : String) (entries : List (Location × Bool)),
      (entries.map fun found => (name :: found.1, found.2)).filterMap placeOf? =
        (entries.filterMap placeOf?).map (name :: ·) := by
    intro name entries
    rw [List.filterMap_map, List.map_filterMap]
    refine List.filterMap_congr fun entry _ => ?_
    rw [Function.comp_apply, placeOf?, placeOf?]
    split <;> rfl
  induction forest with
  | nil => rfl
  | file name data rest ih =>
    rw [listing, files, List.map_cons, ← ih]
    rfl
  | directory name children rest ihc ih =>
    rw [listing, files, List.map_append, List.map_map, ← ih, List.cons_append, List.filterMap_cons,
      List.filterMap_append, hdeeper, ihc, List.map_map]
    rfl

theorem nonempty_of_mem_listing {forest : Forest} {entry : Location × Bool}
    (h : entry ∈ forest.listing) : entry.1 ≠ [] := by
  induction forest with
  | nil => cases h
  | file name data rest ih =>
    rcases List.mem_cons.1 h with rfl | h
    · simp
    · exact ih h
  | directory name children rest _ ih =>
    rw [listing, List.cons_append, List.mem_cons, List.mem_append, List.mem_map] at h
    rcases h with rfl | ⟨found, -, rfl⟩ | h
    · simp
    · simp
    · exact ih h

/-- A listed place at which there is no file has a directory. -/
theorem look_of_mem_listing {forest : Forest} (ordered : forest.Ordered) {location : Location}
    (h : (location, true) ∈ forest.listing) : forest.look location = some .directory := by
  -- What is listed of the siblings that follow a name is not hidden by it.
  have behind : ∀ {name : String} {rest forest : Forest} {node : Node} {location : Location},
      (∀ other ∈ rest.names, name < other) →
      (∀ wanted, forest.child? wanted = if name = wanted then some node else rest.child? wanted) →
      location ≠ [] → rest.look location = some .directory →
        forest.look location = some .directory := by
    intro name rest forest node location above hchild hne hrest
    obtain ⟨wanted, below, rfl⟩ := List.exists_cons_of_ne_nil hne
    rw [look_rest above hchild] at hrest
    split at hrest
    · cases hrest
    · exact hrest
  induction forest generalizing location with
  | nil => cases h
  | file name data rest ih =>
    rcases List.mem_cons.1 h with heq | h
    · cases heq
    · exact behind ordered.1 (fun _ => rfl) (nonempty_of_mem_listing h) (ih ordered.2 h)
  | directory name children rest ihc ih =>
    rw [listing, List.cons_append, List.mem_cons, List.mem_append, List.mem_map] at h
    rcases h with heq | ⟨found, hfound, heq⟩ | h
    · cases heq
      rw [look_cons, child?, if_pos rfl]
      exact look_nil children
    · obtain ⟨below, isDirectory⟩ := found
      cases heq
      rw [look_cons, child?, if_pos rfl]
      exact ihc ordered.2.1 hfound
    · exact behind ordered.1 (fun _ => rfl) (nonempty_of_mem_listing h) (ih ordered.2.2 h)

end Forest

/-! ## Units -/

namespace SourceUnit

/-- Names that lead down stay below where they are read. -/
theorem staysBelow_ofSegments {names : List String} (hne : names ≠ [])
    (h : ∀ name ∈ names, Environment.IsFileName name) :
    staysBelow (Path.ofSegments names) = true := by
  have hentries : ∀ name ∈ names, Path.IsEntry name := fun name hm => (h name hm).entry
  have hnonempty : (Path.ofSegments names).isEmpty = false := by
    obtain ⟨init, name, rfl⟩ : ∃ init name, names = init ++ [name] :=
      ⟨_, _, (List.dropLast_append_getLast hne).symm⟩
    rw [← Path.empty_extend hne hentries]
    exact Environment.isEmpty_extend h
  -- Every component is a name.
  have hplain : ∀ component ∈ names.filterMap Component.ofSegment?, component.isPlain = true := by
    intro component hm
    obtain ⟨name, hname, hcomponent⟩ := List.mem_filterMap.1 hm
    rw [Component.ofSegment?, if_neg (h name hname).isName.2] at hcomponent
    split at hcomponent
    · cases hcomponent
    · cases hcomponent
      rfl
  rw [staysBelow, hnonempty, Path.components, Path.isAbsolute_ofSegments hentries,
    Path.segments_ofSegments hne fun name hm => (hentries name hm).segment, if_neg (by simp)]
  split
  · exact List.all_eq_true.2 (List.forall_mem_cons.2 ⟨rfl, hplain⟩)
  · exact List.all_eq_true.2 hplain

/-- The unit that a file below a root becomes. -/
def ofFile (found : Location × FileData) : SourceUnit where
  path := Path.ofSegments found.1
  content := (Text.decode? found.2.bytes).getD ""
  language := Language.ofPath? (Path.ofSegments found.1)

theorem ofPath_ofSegments {names : List String} (hne : names ≠ [])
    (h : ∀ name ∈ names, Environment.IsFileName name) (content : String) :
    ofPath (Path.ofSegments names) content =
      .ok ⟨Path.ofSegments names, content, Language.ofPath? (Path.ofSegments names)⟩ := by
  rw [ofPath, staysBelow_ofSegments hne h, if_pos rfl]

end SourceUnit

/-! ## Loading -/

/-- A tree below a root that can be walked through: its names are those of files, and no path gets
    too long. -/
def Forest.Loadable (root : Path) (tree : Forest) : Prop :=
  ∀ entry ∈ tree.listing,
    Environment.Fits entry.1 ∧ Environment.pathFault? (root.extend entry.1) = none

/-- A tree whose files are text. -/
def Forest.IsText (tree : Forest) : Prop :=
  ∀ found ∈ tree.files, (Text.decode? found.2.bytes).isSome = true

instance (root : Path) (tree : Forest) : Decidable (tree.Loadable root) :=
  inferInstanceAs (Decidable (∀ entry ∈ tree.listing,
    Environment.Fits entry.1 ∧ Environment.pathFault? (root.extend entry.1) = none))

instance (tree : Forest) : Decidable tree.IsText :=
  inferInstanceAs (Decidable (∀ found ∈ tree.files, (Text.decode? found.2.bytes).isSome = true))

variable {env : Environment} {root : Path} {here : Location} {tree : Forest}

/-- What stands in the tree is found by its names. -/
theorem locate_listed (hroot : env.locate root = .ok (here, .directory tree))
    {location : Location} {node : Node} (fits : Environment.Fits location)
    (fine : Environment.pathFault? (root.extend location) = none)
    (h : tree.get? location = some node) :
    env.locate (root.extend location) = .ok (here ++ location, node) := by
  rw [Environment.locate_extend hroot fits.isFileName fine]
  refine Environment.follow_there fits ?_
  show env.files.root.get? (here ++ location) = _
  rw [Forest.get?_append, show env.files.root.get? here = _ from Environment.get?_of_locate hroot]
  exact h

/-- A directory in the tree is listed. -/
theorem loadEntry_directory (hroot : env.locate root = .ok (here, .directory tree))
    {location : Location} (fits : Environment.Fits location)
    (fine : Environment.pathFault? (root.extend location) = none)
    (h : tree.look location = some .directory) : loadEntry env root (location, true) = .ok none := by
  obtain ⟨children, hget⟩ : ∃ children, tree.get? location = some (.directory children) := by
    rw [Forest.look, Option.map_eq_some_iff] at h
    obtain ⟨node, hnode, hkind⟩ := h
    cases node with
    | file data => cases hkind
    | directory children => exact ⟨children, hnode⟩
  rw [loadEntry, Environment.namesIn, locate_listed hroot fits fine hget]

/-- A file in the tree becomes a unit. -/
theorem loadEntry_file (hroot : env.locate root = .ok (here, .directory tree)) {location : Location}
    {data : FileData} (fits : Environment.Fits location)
    (fine : Environment.pathFault? (root.extend location) = none) (hne : location ≠ [])
    (h : tree.get? location = some (.file data)) (text : (Text.decode? data.bytes).isSome = true) :
    loadEntry env root (location, false) = .ok (some (SourceUnit.ofFile (location, data))) := by
  obtain ⟨content, hcontent⟩ := Option.isSome_iff_exists.1 text
  rw [loadEntry, loadSource, Environment.readText, Environment.read, locate_listed hroot fits fine h]
  simp only [hcontent, SourceUnit.ofPath_ofSegments hne fits.isFileName]
  rw [SourceUnit.ofFile, hcontent]
  rfl

/-- A traversal in which no step fails. -/
theorem mapM_ok {α β ε : Type} {step : α → Except ε β} {value : α → β} {items : List α}
    (h : ∀ item ∈ items, step item = .ok (value item)) :
    items.mapM step = .ok (items.map value) := by
  induction items with
  | nil => rfl
  | cons item rest ih =>
    rw [List.mapM_cons, h item List.mem_cons_self,
      ih fun other hm => h other (List.mem_cons_of_mem _ hm)]
    rfl

/-- **Loading**: every file of the tree as a unit, in order. -/
theorem loadSources_eq (hroot : env.locate root = .ok (here, .directory tree))
    (loadable : tree.Loadable root) (isText : tree.IsText) :
    loadSources env root = .ok (tree.files.map SourceUnit.ofFile) := by
  have hordered : tree.Ordered :=
    Forest.ordered_of_get? env.files.ordered (Environment.get?_of_locate hroot)
  -- The unit of a place is told by the file at it.
  let unitAt (location : Location) : SourceUnit :=
    match tree.look location with
    | some (.file data) => SourceUnit.ofFile (location, data)
    | some .directory => default
    | none => default
  have hunits : tree.files.map SourceUnit.ofFile = (tree.files.map (·.1)).map unitAt := by
    rw [List.map_map]
    refine List.map_congr_left fun found hm => ?_
    have hlook := (Forest.mem_files_iff hordered).1 (show (found.1, found.2) ∈ tree.files from hm)
    simp only [unitAt, Function.comp_apply, hlook]
  have hentries : ∀ entry ∈ tree.listing,
      loadEntry env root entry = .ok ((Forest.placeOf? entry).map unitAt) := by
    rintro ⟨location, isDirectory⟩ hm
    obtain ⟨fits, fine⟩ := loadable _ hm
    have hne := Forest.nonempty_of_mem_listing hm
    cases isDirectory with
    | true => exact loadEntry_directory hroot fits fine (Forest.look_of_mem_listing hordered hm)
    | false =>
      have hplace : location ∈ tree.files.map (·.1) := by
        rw [← Forest.places_listing]
        exact List.mem_filterMap.2 ⟨_, hm, rfl⟩
      obtain ⟨⟨place, data⟩, hfound, heq⟩ := List.mem_map.1 hplace
      obtain rfl : place = location := heq
      have hlook := (Forest.mem_files_iff hordered).1 hfound
      have hthere : FileTree.look ⟨tree, hordered⟩ place = some (.file data) := hlook
      have hget : tree.get? place = some (.file data) := FileTree.look_file_iff.1 hthere
      rw [loadEntry_file hroot fits fine hne hget (isText _ hfound)]
      simp only [Forest.placeOf?, Option.map_some, unitAt, hlook, Bool.false_eq_true, if_false]
  rw [loadSources, hroot]
  simp only
  rw [mapM_ok hentries, hunits, ← Forest.places_listing, List.map_filterMap]
  exact congrArg Except.ok List.filterMap_map

end KotlinHarness
