/-
  What a file tree holds, location by location.

  A tree is an ordered list of entries, and putting an entry somewhere rebuilds the way to it.  For
  everything that is said about files it only matters what stands at which location, `look`, and one
  law tells how that changes:

    * `look_insert`   putting a leaf where no directory stands changes that location and no other

  `mem_files_iff` reads the listing of a tree the same way: it has exactly the locations at which
  there are files.
-/
import KotlinHarness.Files.Tree

namespace KotlinHarness

namespace Node

/-- A node without what is below it. -/
def kind : Node → Leaf
  | file data => .file data
  | directory _ => .directory

/-- What stands at a location below a node. -/
def below? : Node → Location → Option Node
  | directory children, location => children.get? location
  | file data, [] => some (.file data)
  | file _, _ :: _ => none

@[simp] theorem below?_nil (node : Node) : node.below? [] = some node := by
  cases node with
  | file data => rfl
  | directory children =>
    show children.get? [] = _
    unfold Forest.get?
    rfl

end Node

namespace Forest

/-! ## Children -/

/-- The child of a name. -/
def child? : Forest → String → Option Node
  | nil, _ => none
  | file name data rest, wanted => if name = wanted then some (.file data) else rest.child? wanted
  | directory name children rest, wanted =>
    if name = wanted then some (.directory children) else rest.child? wanted

@[simp] theorem get?_nil (forest : Forest) : forest.get? [] = some (.directory forest) := by
  cases forest <;> rfl

theorem get?_cons (forest : Forest) (name : String) (below : Location) :
    forest.get? (name :: below) = (forest.child? name).bind (·.below? below) := by
  induction forest with
  | nil => rfl
  | file other data rest ih =>
    rw [get?, child?]
    split
    · cases below <;> rfl
    · exact ih
  | directory other children rest _ ih =>
    rw [get?, child?]
    split
    · rfl
    · exact ih

/-- A location is looked up step by step. -/
theorem get?_append (forest : Forest) (here below : Location) :
    forest.get? (here ++ below) = (forest.get? here).bind (·.below? below) := by
  induction here generalizing forest with
  | nil => rw [List.nil_append, get?_nil, Option.bind_some, Node.below?]
  | cons name rest ih =>
    rw [List.cons_append, get?_cons, get?_cons]
    rcases forest.child? name with - | node
    · rfl
    · cases node with
      | directory children => exact ih children
      | file data =>
        cases rest with
        | nil => rfl
        | cons next rest => rfl

theorem mem_names_iff {forest : Forest} {name : String} :
    name ∈ forest.names ↔ ∃ node, forest.child? name = some node := by
  induction forest with
  | nil => simp [names, child?]
  | file other data rest ih =>
    rw [names, child?, List.mem_cons, ih]
    by_cases h : other = name
    · simp [h]
    · simp [h, Ne.symm h]
  | directory other children rest _ ih =>
    rw [names, child?, List.mem_cons, ih]
    by_cases h : other = name
    · simp [h]
    · simp [h, Ne.symm h]

/-! ## Children after a change -/

@[simp] theorem child?_entry (leaf : Leaf) (name other : String) (rest : Forest) :
    (leaf.entry name rest).child? other =
      if name = other then some leaf.node else rest.child? other := by
  cases leaf <;> rfl

/-- Two tests for different names can be made in either order. -/
theorem ite_name_comm {α : Type} {name first other : String} (hne : name ≠ first) (x y z : α) :
    (if first = other then x else if name = other then y else z) =
      if name = other then y else if first = other then x else z := by
  by_cases h : first = other
  · subst h
    rw [if_pos rfl, if_neg hne, if_pos rfl]
  · rw [if_neg h, if_neg h]

theorem child?_place (forest : Forest) (name other : String) (leaf : Leaf) :
    (forest.place name leaf).child? other =
      if name = other then some leaf.node else forest.child? other := by
  induction forest with
  | nil => exact child?_entry leaf name other nil
  | file first data rest ih =>
    rw [place]
    split
    · exact child?_entry leaf name other _
    · split
      · next heq =>
        rw [child?_entry, child?, ← heq]
        split <;> rfl
      · next hne =>
        rw [child?, child?, ih]
        exact ite_name_comm hne _ _ _
  | directory first children rest _ ih =>
    rw [place]
    split
    · exact child?_entry leaf name other _
    · split
      · next heq =>
        rw [child?_entry, child?, ← heq]
        split <;> rfl
      · next hne =>
        rw [child?, child?, ih]
        exact ite_name_comm hne _ _ _

/-- Inserting further down changes what is below one child. -/
theorem child?_insert (forest : Forest) (leaf : Leaf) (name other : String) {below : Location}
    (hne : below ≠ []) :
    (forest.insert leaf (name :: below)).child? other =
      match forest.child? other with
      | some (.directory children) =>
        some (.directory (if name = other then children.insert leaf below else children))
      | node => node := by
  obtain ⟨next, below, rfl⟩ := List.exists_cons_of_ne_nil hne
  induction forest with
  | nil => rfl
  | file first data rest ih =>
    rw [insert]
    by_cases h : first = other
    · split <;> simp [child?, h]
    · split
      · next heq =>
        have hname : name ≠ other := fun h' => h (heq.trans h')
        simp only [child?, if_neg h, if_neg hname]
        split <;> simp_all
      · simp only [child?, if_neg h]
        exact ih
  | directory first children rest _ ih =>
    rw [insert]
    by_cases h : first = other
    · split
      · next heq => simp [child?, h, ← heq]
      · next hname =>
        have hname : name ≠ other := fun h' => hname (h.trans h'.symm)
        simp [child?, h, hname]
    · split
      · next heq =>
        have hname : name ≠ other := fun h' => h (heq.trans h')
        simp only [child?, if_neg h, if_neg hname]
        split <;> simp_all
      · simp only [child?, if_neg h]
        exact ih

/-! ## Looking at a location -/

/-- What stands at a location, without what is below it. -/
def look (forest : Forest) (location : Location) : Option Leaf :=
  (forest.get? location).map Node.kind

@[simp] theorem look_nil (forest : Forest) : forest.look [] = some .directory := by
  rw [look, get?_nil]
  rfl

theorem look_cons (forest : Forest) (name : String) (below : Location) :
    forest.look (name :: below) =
      match forest.child? name with
      | some (.directory children) => children.look below
      | some (.file data) => if below = [] then some (.file data) else none
      | none => none := by
  rw [look, get?_cons]
  split
  · next h => rw [h]; rfl
  · next h =>
    rw [h]
    cases below <;> rfl
  · next h => rw [h]; rfl

/-- Nothing stands below what is no directory. -/
theorem look_below {forest : Forest} {name : String} {below : Location}
    (free : forest.look [name] ≠ some .directory) (hne : below ≠ []) :
    forest.look (name :: below) = none := by
  rw [look_cons] at free ⊢
  split
  · next children hchild =>
    rw [hchild] at free
    exact absurd children.look_nil free
  · exact if_neg hne
  · rfl

theorem look_place {forest : Forest} {leaf : Leaf} {name : String}
    (free : forest.look [name] ≠ some .directory) (other : Location) :
    (forest.place name leaf).look other =
      if other = [name] then some leaf else forest.look other := by
  cases other with
  | nil => simp
  | cons first below =>
    by_cases h : name = first
    · subst h
      cases below with
      | nil =>
        rw [look_cons, child?_place, if_pos rfl]
        cases leaf <;> simp [Leaf.node]
      | cons next below =>
        rw [look_below free (by simp), look_cons, child?_place, if_pos rfl]
        cases leaf with
        | file data => simp [Leaf.node]
        | directory =>
          rw [if_neg (by simp)]
          rfl
    · rw [look_cons, look_cons, child?_place, if_neg h, if_neg (by simp [Ne.symm h])]

/-- **Putting a leaf** into a directory, where no directory stands, changes what stands there and
    nothing else. -/
theorem look_insert {forest : Forest} {leaf : Leaf} {here : Location} {name : String}
    (parent : forest.look here = some .directory)
    (free : forest.look (here ++ [name]) ≠ some .directory) (other : Location) :
    (forest.insert leaf (here ++ [name])).look other =
      if other = here ++ [name] then some leaf else forest.look other := by
  induction here generalizing forest other with
  | nil =>
    have hinsert : forest.insert leaf [name] = forest.place name leaf := by cases forest <;> rfl
    rw [List.nil_append, hinsert]
    exact look_place free other
  | cons first rest ih =>
    -- The way leads through a child that is a directory.
    obtain ⟨children, hchild, hparent⟩ : ∃ children, forest.child? first = some (.directory children)
        ∧ children.look rest = some .directory := by
      rw [look_cons] at parent
      split at parent
      · next children hchild => exact ⟨children, hchild, parent⟩
      · split at parent <;> cases parent
      · cases parent
    have hfree : children.look (rest ++ [name]) ≠ some .directory := by
      rw [List.cons_append, look_cons, hchild] at free
      exact free
    cases other with
    | nil => simp
    | cons wanted below =>
      rw [List.cons_append, look_cons, look_cons, child?_insert forest leaf first wanted (by simp)]
      by_cases h : first = wanted
      · subst h
        simp [hchild, ih hparent hfree]
      · rcases forest.child? wanted with - | node
        · simp [Ne.symm h]
        · cases node <;> simp [h, Ne.symm h]

/-! ## The listing -/

theorem child?_eq_none {forest : Forest} {name : String}
    (above : ∀ other ∈ forest.names, name < other) : forest.child? name = none := by
  rcases h : forest.child? name with - | node
  · rfl
  · exact absurd (above name (mem_names_iff.2 ⟨node, h⟩)) (String.lt_irrefl name)

/-- The listing has exactly the files, each where it stands. -/
theorem mem_files_iff {forest : Forest} (ordered : forest.Ordered) {location : Location}
    {data : FileData} :
    (location, data) ∈ forest.files ↔ forest.look location = some (.file data) := by
  induction forest generalizing location with
  | nil => cases location <;> simp [files, look_cons, child?]
  | file other found rest ih =>
    rw [files, List.mem_cons, ih ordered.2]
    cases location with
    | nil => simp
    | cons name below =>
      rw [look_cons, look_cons, child?]
      by_cases h : other = name
      · subst h
        rw [child?_eq_none ordered.1]
        cases below <;> simp [eq_comm]
      · simp [h, Ne.symm h]
  | directory other children rest ihc ih =>
    rw [files, List.mem_append, List.mem_map, ih ordered.2.2]
    cases location with
    | nil => simp
    | cons name below =>
      rw [look_cons, look_cons, child?]
      by_cases h : other = name
      · subst h
        rw [child?_eq_none ordered.1, if_pos rfl]
        show _ ↔ children.look below = some (.file data)
        rw [← ihc ordered.2.1]
        constructor
        · rintro (⟨listed, hm, heq⟩ | h)
          · cases heq
            exact hm
          · cases h
        · intro hm
          exact .inl ⟨(below, data), hm, rfl⟩
      · rw [if_neg h]
        constructor
        · rintro (⟨listed, hm, heq⟩ | h)
          · cases heq
            exact absurd rfl h
          · exact h
        · exact .inr

/-- No location is listed twice. -/
theorem nodup_files {forest : Forest} (ordered : forest.Ordered) :
    forest.files.Pairwise fun first second => first.1 ≠ second.1 := by
  -- What is listed of the siblings that follow a name starts with another one.
  have apart : ∀ {name : String} {rest : Forest} {below : Location} {listed : Location × FileData},
      rest.Ordered → (∀ other ∈ rest.names, name < other) → listed ∈ rest.files →
        name :: below ≠ listed.1 := by
    intro name rest below listed ordered above hm heq
    have hfile := (mem_files_iff ordered).1 (show (listed.1, listed.2) ∈ rest.files from hm)
    rw [← heq, look_cons, child?_eq_none above] at hfile
    cases hfile
  induction forest with
  | nil => exact List.Pairwise.nil
  | file other found rest ih =>
    exact List.Pairwise.cons (fun listed hm => apart ordered.2 ordered.1 hm) (ih ordered.2)
  | directory other children rest ihc ih =>
    rw [files, List.pairwise_append, List.pairwise_map]
    refine ⟨(ihc ordered.2.1).imp fun hne heq => hne (List.cons.inj heq).2, ih ordered.2.2, ?_⟩
    intro first hfirst second hsecond
    obtain ⟨listed, _, rfl⟩ := List.mem_map.1 hfirst
    exact apart ordered.2.2 ordered.1 hsecond

end Forest

end KotlinHarness
