/-
  File trees: directories hold named files and directories, ordered by name.

  A directory's entries form a `Forest`: a list of entries in which a directory entry carries its
  own forest, so that every recursion over a tree is a recursion over one inductive type.
  `FileTree` adds the invariant that siblings stand in strictly ascending order of their names;
  the two operations that change a tree, `insert` and `erase`, keep it.

  Locations are lists of names read from the root.
-/
import KotlinHarness.Files.Program
import KotlinHarness.Text.Order

namespace KotlinHarness

/-- Whether a file may be run, and as what.  An executable file that was overwritten is no
    program. -/
inductive FileMode where
  | plain
  | executable (program : Option Program)

namespace FileMode

/-- The mode after the file was written: an executable file stays executable and is no longer the
    program it was. -/
def overwritten : FileMode → FileMode
  | plain => plain
  | executable _ => executable none

end FileMode

/-- A file's octets and mode. -/
structure FileData where
  bytes : Bytes
  mode : FileMode

/-- The entries of a directory. -/
inductive Forest where
  | nil
  | file (name : String) (data : FileData) (rest : Forest)
  | directory (name : String) (children rest : Forest)

/-- What stands at a location. -/
inductive Node where
  | file (data : FileData)
  | directory (children : Forest)

/-- What can be put into a directory: a file, or a new directory, which is empty. -/
inductive Leaf where
  | file (data : FileData)
  | directory

/-- Names from the root down; the root itself is `[]`. -/
abbrev Location := List String

namespace Leaf

/-- The entry `name` holding `leaf`, in front of `rest`. -/
def entry (leaf : Leaf) (name : String) (rest : Forest) : Forest :=
  match leaf with
  | file data => .file name data rest
  | directory => .directory name .nil rest

/-- The node that `leaf` becomes. -/
def node : Leaf → Node
  | file data => .file data
  | directory => .directory .nil

end Leaf

namespace Forest

/-! ## Reading -/

/-- The names in this directory, in order. -/
def names : Forest → List String
  | nil => []
  | file name _ rest => name :: names rest
  | directory name _ rest => name :: names rest

/-- What stands at a location below this directory. -/
def get? : Forest → Location → Option Node
  | forest, [] => some (.directory forest)
  | nil, _ :: _ => none
  | file name data rest, wanted :: below =>
    if name = wanted then (if below.isEmpty then some (.file data) else none)
    else get? rest (wanted :: below)
  | directory name children rest, wanted :: below =>
    if name = wanted then get? children below else get? rest (wanted :: below)

/-- Every file below this directory with its location, depth first. -/
def files : Forest → List (Location × FileData)
  | nil => []
  | file name data rest => ([name], data) :: files rest
  | directory name children rest =>
    (files children).map (fun found => (name :: found.1, found.2)) ++ files rest

/-- Every location below this directory, depth first, and whether it is a directory. -/
def listing : Forest → List (Location × Bool)
  | nil => []
  | file name _ rest => ([name], false) :: listing rest
  | directory name children rest =>
    ([name], true) :: (listing children).map (fun found => (name :: found.1, found.2))
      ++ listing rest

/-! ## Changing -/

/-- The entry `name` set to `leaf`, at its place in the order. -/
def place (name : String) (leaf : Leaf) : Forest → Forest
  | nil => leaf.entry name nil
  | file other data rest =>
    if name < other then leaf.entry name (file other data rest)
    else if name = other then leaf.entry name rest
    else file other data (place name leaf rest)
  | directory other children rest =>
    if name < other then leaf.entry name (directory other children rest)
    else if name = other then leaf.entry name rest
    else directory other children (place name leaf rest)

/-- `leaf` put at a location whose parent is a directory; elsewhere nothing changes. -/
def insert (leaf : Leaf) : Forest → Location → Forest
  | forest, [] => forest
  | forest, [name] => place name leaf forest
  | nil, _ :: _ :: _ => nil
  | file name data rest, wanted :: next :: below =>
    if name = wanted then file name data rest
    else file name data (insert leaf rest (wanted :: next :: below))
  | directory name children rest, wanted :: next :: below =>
    if name = wanted then directory name (insert leaf children (next :: below)) rest
    else directory name children (insert leaf rest (wanted :: next :: below))

/-- The entry at a location removed, with everything below it. -/
def erase : Forest → Location → Forest
  | forest, [] => forest
  | nil, _ :: _ => nil
  | file name data rest, wanted :: below =>
    if name = wanted then (if below.isEmpty then rest else file name data rest)
    else file name data (erase rest (wanted :: below))
  | directory name children rest, wanted :: below =>
    if name = wanted then
      (if below.isEmpty then rest else directory name (erase children below) rest)
    else directory name children (erase rest (wanted :: below))

/-! ## The order of siblings -/

/-- Siblings ascend strictly, here and in every directory below. -/
def Ordered : Forest → Prop
  | nil => True
  | file name _ rest => (∀ other ∈ rest.names, name < other) ∧ Ordered rest
  | directory name children rest =>
    (∀ other ∈ rest.names, name < other) ∧ Ordered children ∧ Ordered rest

theorem names_entry (leaf : Leaf) (name : String) (rest : Forest) :
    (leaf.entry name rest).names = name :: rest.names := by
  cases leaf <;> rfl

theorem ordered_entry {leaf : Leaf} {name : String} {rest : Forest}
    (above : ∀ other ∈ rest.names, name < other) (h : rest.Ordered) :
    (leaf.entry name rest).Ordered := by
  cases leaf with
  | file data => exact ⟨above, h⟩
  | directory => exact ⟨above, trivial, h⟩

/-- Placing adds one name and loses none. -/
theorem mem_names_place {name other : String} {leaf : Leaf} {forest : Forest}
    (h : other ∈ (forest.place name leaf).names) : other = name ∨ other ∈ forest.names := by
  induction forest with
  | nil => simpa [place, names_entry, names] using h
  | file n data rest ih =>
    simp only [place] at h
    split at h
    · simpa [names_entry] using h
    · split at h
      · rw [names_entry] at h
        rcases List.mem_cons.1 h with h | h
        · exact .inl h
        · exact .inr (List.mem_cons_of_mem _ h)
      · rcases List.mem_cons.1 h with h | h
        · exact .inr (h ▸ List.mem_cons_self)
        · exact (ih h).imp id (List.mem_cons_of_mem _)
  | directory n children rest _ ih =>
    simp only [place] at h
    split at h
    · simpa [names_entry] using h
    · split at h
      · rw [names_entry] at h
        rcases List.mem_cons.1 h with h | h
        · exact .inl h
        · exact .inr (List.mem_cons_of_mem _ h)
      · rcases List.mem_cons.1 h with h | h
        · exact .inr (h ▸ List.mem_cons_self)
        · exact (ih h).imp id (List.mem_cons_of_mem _)

/-- A name below the first of an ordered forest is below all its names. -/
theorem below_names {name first : String} {others : List String} (hlt : name < first)
    (h : ∀ other ∈ others, first < other) : ∀ other ∈ first :: others, name < other := by
  intro other hm
  rcases List.mem_cons.1 hm with rfl | hm
  · exact hlt
  · exact String.lt_trans hlt (h other hm)

/-- Placing an entry keeps the order. -/
theorem ordered_place {name : String} {leaf : Leaf} {forest : Forest} (h : forest.Ordered) :
    (forest.place name leaf).Ordered := by
  induction forest with
  | nil => exact ordered_entry (by simp [names]) trivial
  | file n data rest ih =>
    simp only [place]
    split
    · next hlt => exact ordered_entry (below_names hlt h.1) h
    · next hlt =>
      split
      · next heq => subst heq; exact ordered_entry h.1 h.2
      · next hne =>
        refine ⟨fun other hm => ?_, ih h.2⟩
        rcases mem_names_place hm with rfl | hm
        · exact Text.lt_of_not_lt_of_ne hlt hne
        · exact h.1 other hm
  | directory n children rest _ ih =>
    simp only [place]
    split
    · next hlt => exact ordered_entry (below_names hlt h.1) h
    · next hlt =>
      split
      · next heq => subst heq; exact ordered_entry h.1 h.2.2
      · next hne =>
        refine ⟨fun other hm => ?_, h.2.1, ih h.2.2⟩
        rcases mem_names_place hm with rfl | hm
        · exact Text.lt_of_not_lt_of_ne hlt hne
        · exact h.1 other hm

/-- Inserting below a directory leaves the names of its siblings alone. -/
theorem names_insert_deep (leaf : Leaf) (forest : Forest) (wanted next : String)
    (below : Location) :
    (insert leaf forest (wanted :: next :: below)).names = forest.names := by
  induction forest with
  | nil => rfl
  | file n data rest ih => simp only [insert]; split <;> simp [names, ih]
  | directory n children rest _ ih => simp only [insert]; split <;> simp [names, ih]

/-- Inserting keeps the order. -/
theorem ordered_insert (leaf : Leaf) {forest : Forest} (location : Location) (h : forest.Ordered) :
    (insert leaf forest location).Ordered := by
  induction forest generalizing location with
  | nil =>
    match location with
    | [] => exact h
    | [name] => exact ordered_place h
    | _ :: _ :: _ => exact h
  | file n data rest ih =>
    match location with
    | [] => exact h
    | [name] => exact ordered_place h
    | wanted :: next :: below =>
      simp only [insert]
      split
      · exact h
      · exact ⟨by rw [names_insert_deep]; exact h.1, ih _ h.2⟩
  | directory n children rest ihc ih =>
    match location with
    | [] => exact h
    | [name] => exact ordered_place h
    | wanted :: next :: below =>
      simp only [insert]
      split
      · exact ⟨h.1, ihc _ h.2.1, h.2.2⟩
      · exact ⟨by rw [names_insert_deep]; exact h.1, h.2.1, ih _ h.2.2⟩

/-- Erasing loses names and adds none. -/
theorem mem_names_erase {other : String} {forest : Forest} {location : Location}
    (h : other ∈ (forest.erase location).names) : other ∈ forest.names := by
  induction forest generalizing location with
  | nil => cases location <;> simpa [erase] using h
  | file n data rest ih =>
    cases location with
    | nil => simpa [erase] using h
    | cons wanted below =>
      simp only [erase] at h
      split at h
      · split at h
        · exact List.mem_cons_of_mem _ h
        · exact h
      · rcases List.mem_cons.1 h with h | h
        · exact h ▸ List.mem_cons_self
        · exact List.mem_cons_of_mem _ (ih h)
  | directory n children rest _ ih =>
    cases location with
    | nil => simpa [erase] using h
    | cons wanted below =>
      simp only [erase] at h
      split at h
      · split at h
        · exact List.mem_cons_of_mem _ h
        · exact h
      · rcases List.mem_cons.1 h with h | h
        · exact h ▸ List.mem_cons_self
        · exact List.mem_cons_of_mem _ (ih h)

/-- Erasing keeps the order. -/
theorem ordered_erase {forest : Forest} (location : Location) (h : forest.Ordered) :
    (forest.erase location).Ordered := by
  induction forest generalizing location with
  | nil => cases location <;> exact h
  | file n data rest ih =>
    cases location with
    | nil => exact h
    | cons wanted below =>
      simp only [erase]
      split
      · split
        · exact h.2
        · exact h
      · exact ⟨fun other hm => h.1 other (mem_names_erase hm), ih _ h.2⟩
  | directory n children rest ihc ih =>
    cases location with
    | nil => exact h
    | cons wanted below =>
      simp only [erase]
      split
      · split
        · exact h.2.2
        · exact ⟨h.1, ihc _ h.2.1, h.2.2⟩
      · exact ⟨fun other hm => h.1 other (mem_names_erase hm), h.2.1, ih _ h.2.2⟩

end Forest

/-- A tree whose siblings stand in strictly ascending order. -/
structure FileTree where
  root : Forest
  ordered : root.Ordered

namespace FileTree

/-- The tree with nothing in it. -/
def empty : FileTree := ⟨.nil, trivial⟩

instance : Inhabited FileTree := ⟨empty⟩

/-- What stands at a location. -/
def get? (tree : FileTree) (location : Location) : Option Node := tree.root.get? location

/-- `leaf` put at a location whose parent is a directory. -/
def insert (tree : FileTree) (location : Location) (leaf : Leaf) : FileTree :=
  ⟨tree.root.insert leaf location, Forest.ordered_insert leaf location tree.ordered⟩

/-- The entry at a location removed. -/
def erase (tree : FileTree) (location : Location) : FileTree :=
  ⟨tree.root.erase location, Forest.ordered_erase location tree.ordered⟩

/-- Directories put at every location on the way to `location` and there. -/
def withDirectories (tree : FileTree) (location : Location) : FileTree :=
  (List.range location.length).foldl
    (fun tree n =>
      let here := location.take (n + 1)
      match tree.get? here with
      | some _ => tree
      | none => tree.insert here .directory)
    tree

end FileTree

end KotlinHarness
