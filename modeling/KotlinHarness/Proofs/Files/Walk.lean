/-
  Following paths.

  `follow` reads a path segment by segment and looks at the tree in between.  What it looks at is
  told by `look` alone, so a walk that succeeds in one tree succeeds in every tree that has at least
  the same directories and files (`follow_mono`), and ends at the same location.  What one segment
  does to a walk that goes on is a `Step`, and following succeeds exactly where there is a `Walk` of
  such steps (`follow_eq_ok`); the laws of walks that succeed are by induction over it.

    * `follow_append`    a walk can be cut in two
    * `follow_named`     empty segments in front of another segment change nothing
    * `follow_filter`    nor do they anywhere in a walk that succeeds
    * `follow_of_filter` and they can be put anywhere into a walk to a directory
    * `location_of_follow`   names lead straight down
    * `follow_error_mono`    a walk that fails, and not for want of something, fails in larger trees
    * `follow_back`          a walk to something that is there can be made in smaller trees
-/
import KotlinHarness.Files.Environment
import KotlinHarness.Proofs.Files.Look

namespace KotlinHarness.FileTree

variable {tree : FileTree} {here location : Location} {segments : List String}

/-- What stands at a location, without what is below it. -/
def look (tree : FileTree) (location : Location) : Option Leaf := tree.root.look location

theorem look_eq (tree : FileTree) (location : Location) :
    tree.look location = (tree.get? location).map Node.kind := rfl

theorem look_directory_iff :
    tree.look location = some .directory ↔
      ∃ children, tree.get? location = some (.directory children) := by
  rw [look_eq]
  rcases tree.get? location with - | node
  · simp
  · cases node <;> simp [Node.kind]

theorem look_file_iff {data : FileData} :
    tree.look location = some (.file data) ↔ tree.get? location = some (.file data) := by
  rw [look_eq]
  rcases tree.get? location with - | node
  · simp
  · cases node <;> simp [Node.kind]

theorem look_eq_none_iff : tree.look location = none ↔ tree.get? location = none := by
  rw [look_eq, Option.map_eq_none_iff]

/-- The names in a directory are those of locations at which something stands. -/
theorem contains_names_iff {children : Forest} {name : String}
    (h : tree.get? here = some (.directory children)) :
    children.names.contains name = true ↔ tree.look (here ++ [name]) ≠ none := by
  have hget : tree.get? (here ++ [name]) = children.get? [name] := by
    show tree.root.get? (here ++ [name]) = _
    rw [Forest.get?_append, show tree.root.get? here = _ from h]
    rfl
  rw [List.contains_iff_mem, Forest.mem_names_iff, Ne, look_eq_none_iff, hget, Forest.get?_cons]
  rcases children.child? name with - | node
  · simp
  · simp

/-! ## One step -/

theorem follow_nil (tree : FileTree) (here : Location) :
    tree.follow here [] =
      match tree.get? here with
      | some node => .ok (here, node)
      | none => .error .notFound := rfl

/-- A step from a directory. -/
theorem follow_cons (h : tree.look here = some .directory) (segment : String)
    (rest : List String) :
    tree.follow here (segment :: rest) =
      if Path.isIdle segment then tree.follow here rest
      else if segment = ".." then tree.follow here.dropLast rest
      else if maxNameOctets < segment.utf8ByteSize then .error .nameTooLong
      else if tree.look (here ++ [segment]) = none then .error .notFound
      else tree.follow (here ++ [segment]) rest := by
  obtain ⟨children, hget⟩ := look_directory_iff.1 h
  have hnames : children.names.contains segment = true ↔ tree.look (here ++ [segment]) ≠ none :=
    contains_names_iff hget
  rw [follow, hget]
  simp only
  split
  · rfl
  · split
    · rfl
    · split
      · rfl
      · split
        · next hcontains => rw [if_neg (hnames.1 hcontains)]
        · next hcontains => rw [if_pos (Decidable.not_not.1 fun h => hcontains (hnames.2 h))]

/-- A step has to start in a directory. -/
theorem directory_of_follow {segment : String} {rest : List String} {found : Location × Node}
    (h : tree.follow here (segment :: rest) = .ok found) : tree.look here = some .directory := by
  rw [follow] at h
  split at h
  · cases h
  · cases h
  · next children hget => exact look_directory_iff.2 ⟨children, hget⟩

/-- A segment that goes down. -/
def IsName (segment : String) : Prop := Path.isIdle segment = false ∧ segment ≠ ".."

/-- What a segment does to a walk that goes on. -/
inductive Step (tree : FileTree) (here : Location) : String → Location → Prop
  | stay {segment : String} (idle : Path.isIdle segment = true) : Step tree here segment here
  | up {segment : String} (busy : Path.isIdle segment = false) (dots : segment = "..") :
      Step tree here segment here.dropLast
  | down {name : String} (isName : IsName name) (short : name.utf8ByteSize ≤ maxNameOctets)
      (there : tree.look (here ++ [name]) ≠ none) : Step tree here name (here ++ [name])

/-- A walk that succeeds goes on after its first segment. -/
theorem follow_cons_eq_ok {segment : String} {rest : List String} {found : Location × Node} :
    tree.follow here (segment :: rest) = .ok found ↔
      tree.look here = some .directory ∧
        ∃ next, tree.Step here segment next ∧ tree.follow next rest = .ok found := by
  constructor
  · intro h
    have directory := directory_of_follow h
    refine ⟨directory, ?_⟩
    rw [follow_cons directory] at h
    split at h
    · next idle => exact ⟨here, .stay idle, h⟩
    · next busy =>
      have busy : Path.isIdle segment = false := by simpa using busy
      split at h
      · next dots => exact ⟨here.dropLast, .up busy dots, h⟩
      · next down =>
        split at h
        · cases h
        · next short =>
          split at h
          · cases h
          · next there => exact ⟨_, .down ⟨busy, down⟩ (Nat.le_of_not_lt short) there, h⟩
  · rintro ⟨directory, next, step, h⟩
    rw [follow_cons directory]
    cases step with
    | stay idle => rwa [if_pos idle]
    | up busy dots => rwa [if_neg (by simp [busy]), if_pos dots]
    | down isName short there =>
      rwa [if_neg (by simp [isName.1]), if_neg isName.2, if_neg (Nat.not_lt.2 short), if_neg there]

/-! ## Whole walks -/

/-- The places that segments lead along, with a directory wherever a step starts. -/
inductive Walk (tree : FileTree) : Location → List String → Location → Prop
  | nil {here : Location} (there : tree.look here ≠ none) : Walk tree here [] here
  | cons {here next location : Location} {segment : String} {rest : List String}
      (directory : tree.look here = some .directory) (step : tree.Step here segment next)
      (walk : Walk tree next rest location) : Walk tree here (segment :: rest) location

theorem Walk.there (h : tree.Walk here segments location) : tree.look location ≠ none := by
  induction h with
  | nil there => exact there
  | cons _ _ _ ih => exact ih

/-- **Following** is a walk, and finding what stands where it ends. -/
theorem follow_eq_ok {node : Node} :
    tree.follow here segments = .ok (location, node) ↔
      tree.Walk here segments location ∧ tree.get? location = some node := by
  constructor
  · intro h
    induction segments generalizing here with
    | nil =>
      rw [follow_nil] at h
      split at h
      · next hget =>
        cases h
        exact ⟨.nil fun hnone => by simp [look_eq_none_iff.1 hnone] at hget, hget⟩
      · cases h
    | cons segment rest ih =>
      obtain ⟨directory, next, step, hrest⟩ := follow_cons_eq_ok.1 h
      obtain ⟨walk, hget⟩ := ih hrest
      exact ⟨.cons directory step walk, hget⟩
  · rintro ⟨walk, hget⟩
    induction walk with
    | nil => rw [follow_nil, hget]
    | cons directory step _ ih => exact follow_cons_eq_ok.2 ⟨directory, _, step, ih hget⟩

theorem walk_of_follow {node : Node} (h : tree.follow here segments = .ok (location, node)) :
    tree.Walk here segments location :=
  (follow_eq_ok.1 h).1

/-- A walk ends with what stands where it ends. -/
theorem get?_of_follow {node : Node} (h : tree.follow here segments = .ok (location, node)) :
    tree.get? location = some node :=
  (follow_eq_ok.1 h).2

theorem Walk.follow (h : tree.Walk here segments location) :
    ∃ node, tree.follow here segments = .ok (location, node) := by
  obtain ⟨node, hget⟩ := Option.ne_none_iff_exists'.1 (mt look_eq_none_iff.2 h.there)
  exact ⟨node, follow_eq_ok.2 ⟨h, hget⟩⟩

theorem follow_append (tree : FileTree) (here : Location) (first second : List String) :
    tree.follow here (first ++ second) =
      match tree.follow here first with
      | .ok (middle, _) => tree.follow middle second
      | .error cause => .error cause := by
  induction first generalizing here with
  | nil =>
    rw [List.nil_append, follow_nil]
    split
    · next h =>
      split at h
      · cases h
        rfl
      · cases h
    · next h =>
      split at h
      · cases h
      · next hnone =>
        cases h
        cases second <;> rw [follow, hnone]
  | cons segment rest ih =>
    rcases hget : tree.get? here with - | node
    · rw [List.cons_append, follow, follow, hget]
    · cases node with
      | file data => rw [List.cons_append, follow, follow, hget]
      | directory children =>
        have hlook : tree.look here = some .directory := look_directory_iff.2 ⟨children, hget⟩
        rw [List.cons_append, follow_cons hlook, follow_cons hlook]
        split
        · exact ih here
        · split
          · exact ih here.dropLast
          · split
            · rfl
            · split
              · rfl
              · exact ih (here ++ [segment])

/-- A walk succeeds in every tree that has at least the same directories and files. -/
theorem Walk.mono {old new : FileTree}
    (directories : ∀ {location}, old.look location = some .directory →
      new.look location = some .directory)
    (present : ∀ {location}, old.look location ≠ none → new.look location ≠ none)
    (h : old.Walk here segments location) : new.Walk here segments location := by
  induction h with
  | nil there => exact .nil (present there)
  | cons directory step _ ih =>
    refine .cons (directories directory) ?_ ih
    cases step with
    | stay idle => exact .stay idle
    | up busy dots => exact .up busy dots
    | down isName short there => exact .down isName short (present there)

theorem follow_mono {old new : FileTree} {node : Node}
    (directories : ∀ {location}, old.look location = some .directory →
      new.look location = some .directory)
    (present : ∀ {location}, old.look location ≠ none → new.look location ≠ none)
    (h : old.follow here segments = .ok (location, node)) :
    ∃ node, new.follow here segments = .ok (location, node) :=
  ((walk_of_follow h).mono directories present).follow

/-- Empty segments in front of another segment change nothing. -/
theorem follow_named (tree : FileTree) (here : Location) (before : List String) (name : String) :
    tree.follow here (before ++ [name]) =
      tree.follow here (before.filter (! ·.isEmpty) ++ [name]) := by
  induction before generalizing here with
  | nil => rfl
  | cons segment rest ih =>
    -- Whatever comes first, the walk looks whether it starts in a directory.
    obtain ⟨next, others, hnext⟩ : ∃ next others,
        rest.filter (! ·.isEmpty) ++ [name] = next :: others := by
      cases rest.filter (! ·.isEmpty) <;> exact ⟨_, _, rfl⟩
    by_cases hempty : segment = ""
    · subst hempty
      rw [List.filter_cons_of_neg (by simp), List.cons_append]
      rcases hget : tree.get? here with - | node
      · rw [hnext, follow, follow, hget]
      · cases node with
        | file data => rw [hnext, follow, follow, hget]
        | directory children =>
          rw [follow_cons (look_directory_iff.2 ⟨children, hget⟩), if_pos (by simp [Path.isIdle])]
          exact ih here
    · rw [List.filter_cons_of_pos (by simpa using hempty), List.cons_append, List.cons_append]
      rcases hget : tree.get? here with - | node
      · rw [follow, follow, hget]
      · cases node with
        | file data => rw [follow, follow, hget]
        | directory children =>
          have hlook : tree.look here = some .directory := look_directory_iff.2 ⟨children, hget⟩
          rw [follow_cons hlook, follow_cons hlook, ih here, ih here.dropLast,
            ih (here ++ [segment])]

/-- A walk that succeeds does so without the empty segments. -/
theorem follow_filter {node : Node} (h : tree.follow here segments = .ok (location, node)) :
    tree.follow here (segments.filter (! ·.isEmpty)) = .ok (location, node) := by
  obtain ⟨walk, hget⟩ := follow_eq_ok.1 h
  refine follow_eq_ok.2 ⟨?_, hget⟩
  clear h hget
  induction walk with
  | nil there => exact .nil there
  | @cons here next location segment rest directory step _ ih =>
    by_cases hempty : segment = ""
    · rw [List.filter_cons_of_neg (by simp [hempty])]
      have idle : Path.isIdle segment = true := by simp [hempty, Path.isIdle]
      cases step with
      | stay => exact ih
      | up busy => simp [idle] at busy
      | down isName => exact absurd isName.1 (by simp [idle])
    · rw [List.filter_cons_of_pos (by simpa using hempty)]
      exact .cons directory step ih

/-- Empty segments can be put anywhere into a walk to a directory. -/
theorem follow_of_filter {children : Forest}
    (h : tree.follow here (segments.filter (! ·.isEmpty)) = .ok (location, .directory children)) :
    tree.follow here segments = .ok (location, .directory children) := by
  have hend := get?_of_follow h
  have hstay : tree.follow location [""] = .ok (location, .directory children) := by
    rw [follow_cons (look_directory_iff.2 ⟨children, hend⟩), if_pos (by simp [Path.isIdle]),
      follow_nil, hend]
  -- One more empty segment at the end lets all others be left out.
  have hmore := follow_named tree here segments ""
  rw [follow_append, follow_append, h] at hmore
  simp only [hstay] at hmore
  rcases hwalk : tree.follow here segments with cause | ⟨middle, found⟩
  · rw [hwalk] at hmore
    cases hmore
  · rw [hwalk] at hmore
    simp only at hmore
    rw [follow_cons (directory_of_follow hmore), if_pos (by simp [Path.isIdle]), follow_nil,
      get?_of_follow hwalk] at hmore
    exact hmore

/-- Idle segments stay in a directory. -/
theorem follow_idle (hidle : ∀ segment ∈ segments, Path.isIdle segment = true)
    (hdirectory : tree.look here = some .directory) :
    ∃ children, tree.follow here segments = .ok (here, .directory children) := by
  induction segments with
  | nil =>
    obtain ⟨children, hget⟩ := look_directory_iff.1 hdirectory
    exact ⟨children, by rw [follow_nil, hget]⟩
  | cons segment rest ih =>
    rw [follow_cons hdirectory, if_pos (hidle segment List.mem_cons_self)]
    exact ih fun other hm => hidle other (List.mem_cons_of_mem _ hm)

/-- A walk along names goes straight down. -/
theorem Walk.straight (names : ∀ segment ∈ segments, IsName segment)
    (h : tree.Walk here segments location) : location = here ++ segments := by
  induction h with
  | nil => exact (List.append_nil _).symm
  | cons _ step _ ih =>
    rw [List.forall_mem_cons] at names
    rw [ih names.2]
    cases step with
    | stay idle => simp [names.1.1] at idle
    | up _ dots => exact absurd dots names.1.2
    | down => rw [List.append_assoc, List.singleton_append]

theorem location_of_follow {node : Node} (names : ∀ segment ∈ segments, IsName segment)
    (h : tree.follow here segments = .ok (location, node)) : location = here ++ segments :=
  (walk_of_follow h).straight names

/-- A walk that ends with a name ends below a directory. -/
theorem follow_concat {before : List String} {name : String} {node : Node} (isName : IsName name)
    (h : tree.follow here (before ++ [name]) = .ok (location, node)) :
    ∃ middle found, tree.follow here before = .ok (middle, found) ∧
      tree.look middle = some .directory ∧ location = middle ++ [name] := by
  rw [follow_append] at h
  rcases hbefore : tree.follow here before with cause | ⟨middle, found⟩
  · rw [hbefore] at h
    cases h
  · simp only [hbefore] at h
    have hmiddle := directory_of_follow h
    have hlocation := location_of_follow (fun segment hm => List.mem_singleton.1 hm ▸ isName) h
    exact ⟨middle, found, rfl, hmiddle, hlocation⟩

/-- A walk to a directory can go on to what stands in it. -/
theorem follow_down {before : List String} {name : String} {middle : Location} {children : Forest}
    {node : Node} (h : tree.follow here before = .ok (middle, .directory children))
    (isName : IsName name) (short : name.utf8ByteSize ≤ maxNameOctets)
    (there : tree.get? (middle ++ [name]) = some node) :
    tree.follow here (before ++ [name]) = .ok (middle ++ [name], node) := by
  have directory : tree.look middle = some .directory :=
    look_directory_iff.2 ⟨children, get?_of_follow h⟩
  have present : tree.look (middle ++ [name]) ≠ none := by simp [look_eq_none_iff, there]
  rw [follow_append, h]
  exact follow_eq_ok.2 ⟨.cons directory (.down isName short present) (.nil present), there⟩

/-- One step down. -/
theorem step_of_follow {name : String} {node : Node} (isName : IsName name)
    (h : tree.follow here [name] = .ok (location, node)) :
    location = here ++ [name] ∧ name.utf8ByteSize ≤ maxNameOctets := by
  cases walk_of_follow h with
  | cons _ step walk =>
    cases walk
    cases step with
    | stay idle => simp [isName.1] at idle
    | up _ dots => exact absurd dots isName.2
    | down _ short => exact ⟨rfl, short⟩

/-- Idle segments at the end of a walk to a directory can be exchanged. -/
theorem follow_append_idle {kept idle idle' : List String} {node : Node}
    (hidle : ∀ segment ∈ idle, Path.isIdle segment = true)
    (hidle' : ∀ segment ∈ idle', Path.isIdle segment = true)
    (h : tree.follow here (kept ++ idle) = .ok (location, node))
    (hdirectory : tree.look location = some .directory) :
    ∃ children, tree.follow here (kept ++ idle') = .ok (location, .directory children) := by
  rw [follow_append] at h ⊢
  rcases hkept : tree.follow here kept with cause | ⟨middle, found⟩
  · rw [hkept] at h
    cases h
  · rw [hkept] at h
    simp only at h ⊢
    obtain rfl : middle = location := by
      cases idle with
      | nil =>
        cases walk_of_follow h
        rfl
      | cons segment rest =>
        obtain ⟨children, hstay⟩ := follow_idle hidle (directory_of_follow h)
        rw [hstay] at h
        cases h
        rfl
    exact follow_idle hidle' hdirectory

/-- What has a location below it is a directory. -/
theorem look_of_look_append {below : Location} (hne : below ≠ [])
    (h : tree.look (here ++ below) ≠ none) : tree.look here = some .directory := by
  rw [Ne, look_eq_none_iff] at h
  have hget : tree.get? (here ++ below) = (tree.get? here).bind (·.below? below) :=
    Forest.get?_append tree.root here below
  rw [hget] at h
  rcases hhere : tree.get? here with - | node
  · simp [hhere] at h
  · cases node with
    | directory children => exact look_directory_iff.2 ⟨children, hhere⟩
    | file data =>
      obtain ⟨first, rest, rfl⟩ := List.exists_cons_of_ne_nil hne
      simp [hhere, Node.below?] at h

/-- A walk to a file ends with the file's name. -/
theorem name_of_follow_file {before : List String} {last : String} {data : FileData}
    (h : tree.follow here (before ++ [last]) = .ok (location, .file data)) :
    IsName last ∧ ∃ middle, location = middle ++ [last] := by
  rw [follow_append] at h
  rcases hbefore : tree.follow here before with cause | ⟨middle, found⟩
  · rw [hbefore] at h
    cases h
  · simp only [hbefore] at h
    have hfile : tree.look location = some (.file data) := look_file_iff.2 (get?_of_follow h)
    cases walk_of_follow h with
    | cons hmiddle step walk =>
      cases walk
      cases step with
      | stay =>
        rw [hmiddle] at hfile
        cases hfile
      | up =>
        -- Two dots lead to the directory above, or stay at the root.
        rcases List.eq_nil_or_concat middle with rfl | ⟨above, name, rfl⟩
        · rw [List.dropLast_nil, hmiddle] at hfile
          cases hfile
        · rw [List.concat_eq_append] at hmiddle hfile
          have present : tree.look (above ++ [name]) ≠ none := by simp [hmiddle]
          rw [List.dropLast_concat, look_of_look_append (by simp) present] at hfile
          cases hfile
      | down isName => exact ⟨isName, middle, rfl⟩

/-! ## Walks that fail, and walks back -/

variable {old new : FileTree}

theorem follow_missing (h : tree.look here = none) (segments : List String) :
    tree.follow here segments = .error .notFound := by
  have hget := look_eq_none_iff.1 h
  cases segments with
  | nil => rw [follow_nil, hget]
  | cons segment rest => rw [follow, hget]

theorem follow_file {data : FileData} (h : tree.look here = some (.file data)) (segment : String)
    (rest : List String) : tree.follow here (segment :: rest) = .error .notADirectory := by
  rw [follow, look_file_iff.1 h]

/-- A walk that fails over something that is there fails in every larger tree. -/
theorem follow_error_mono {cause : IoError}
    (directories : ∀ {location}, old.look location = some .directory →
      new.look location = some .directory)
    (files : ∀ {location data}, old.look location = some (.file data) →
      ∃ data, new.look location = some (.file data))
    (stuck : cause ≠ .notFound) (h : old.follow here segments = .error cause) :
    new.follow here segments = .error cause := by
  induction segments generalizing here with
  | nil =>
    rw [follow_nil] at h
    split at h
    · cases h
    · cases h
      exact absurd rfl stuck
  | cons segment rest ih =>
    rcases hlook : old.look here with - | (data | _)
    · rw [follow_missing hlook] at h
      cases h
      exact absurd rfl stuck
    · obtain ⟨_, hnew⟩ := files hlook
      rw [follow_file hlook] at h
      rw [follow_file hnew, h]
    · rw [follow_cons hlook] at h
      rw [follow_cons (directories hlook)]
      -- The tests on the segment come out the same; only the last one looks at the tree.
      split at h
      · next hidle => rw [if_pos hidle]; exact ih h
      · next hidle =>
        rw [if_neg hidle]
        split at h
        · next hup => rw [if_pos hup]; exact ih h
        · next hup =>
          rw [if_neg hup]
          split at h
          · next hlong => rw [if_pos hlong]; exact h
          · next hlong =>
            rw [if_neg hlong]
            split at h
            · cases h
              exact absurd rfl stuck
            · next hfound =>
              have hpresent : new.look (here ++ [segment]) ≠ none := by
                rcases hthere : old.look (here ++ [segment]) with - | (data | _)
                · exact absurd hthere hfound
                · obtain ⟨_, hnew⟩ := files hthere
                  simp [hnew]
                · simp [directories hthere]
              rw [if_neg hpresent]
              exact ih h

/-- Without two dots a walk ends below where it started. -/
theorem Walk.goesDown (up : ".." ∉ segments) (h : tree.Walk here segments location) :
    ∃ below, location = here ++ below := by
  induction h with
  | nil => exact ⟨[], (List.append_nil _).symm⟩
  | cons _ step _ ih =>
    rw [List.mem_cons, not_or] at up
    cases step with
    | stay => exact ih up.2
    | up _ dots => exact absurd dots.symm up.1
    | down =>
      obtain ⟨below, hbelow⟩ := ih up.2
      exact ⟨_ :: below, by rw [hbelow, List.append_assoc, List.singleton_append]⟩

/-- What is above something, or is it, is a directory where it is one in the larger tree. -/
theorem directory_back {below : Location}
    (files : ∀ {location data}, old.look location = some (.file data) →
      ∃ data, new.look location = some (.file data))
    (directory : new.look here = some .directory) (there : old.look (here ++ below) ≠ none) :
    old.look here = some .directory := by
  rcases below with - | ⟨name, below⟩
  · rw [List.append_nil] at there
    rcases hlook : old.look here with - | (data | _)
    · exact absurd hlook there
    · obtain ⟨_, hnew⟩ := files hlook
      rw [hnew] at directory
      cases directory
    · rfl
  · exact look_of_look_append (List.cons_ne_nil name below) there

/-- What is above something is there. -/
theorem present_back {below : Location} (there : tree.look (here ++ below) ≠ none) :
    tree.look here ≠ none := by
  rcases below with - | ⟨name, below⟩
  · rwa [List.append_nil] at there
  · simp [look_of_look_append (List.cons_ne_nil name below) there]

/-- A walk without two dots can be made in every tree in which something stands where it ends. -/
theorem Walk.back
    (files : ∀ {location data}, old.look location = some (.file data) →
      ∃ data, new.look location = some (.file data))
    (up : ".." ∉ segments) (h : new.Walk here segments location)
    (there : old.look location ≠ none) : old.Walk here segments location := by
  induction h with
  | nil => exact .nil there
  | cons directory step walk ih =>
    obtain ⟨below, rfl⟩ := (Walk.cons directory step walk).goesDown up
    rw [List.mem_cons, not_or] at up
    refine .cons (directory_back files directory there) ?_ (ih up.2 there)
    cases step with
    | stay idle => exact .stay idle
    | up _ dots => exact absurd dots.symm up.1
    | down isName short =>
      obtain ⟨further, hfurther⟩ := walk.goesDown up.2
      rw [hfurther] at there
      exact .down isName short (present_back there)

theorem follow_back {node : Node}
    (files : ∀ {location data}, old.look location = some (.file data) →
      ∃ data, new.look location = some (.file data))
    (up : ".." ∉ segments) (h : new.follow here segments = .ok (location, node))
    (there : old.look location ≠ none) : ∃ node, old.follow here segments = .ok (location, node) :=
  ((walk_of_follow h).back files up there).follow

/-- Where it ends at a file, it leads to the file that stands there in the other tree. -/
theorem follow_back_file {data found : FileData}
    (files : ∀ {location data}, old.look location = some (.file data) →
      ∃ data, new.look location = some (.file data))
    (up : ".." ∉ segments) (h : new.follow here segments = .ok (location, .file data))
    (there : old.look location = some (.file found)) :
    old.follow here segments = .ok (location, .file found) := by
  obtain ⟨node, hback⟩ := follow_back files up h (by simp [there])
  have hnode := get?_of_follow hback
  rw [look_file_iff.1 there] at hnode
  cases hnode
  exact hback

end KotlinHarness.FileTree
