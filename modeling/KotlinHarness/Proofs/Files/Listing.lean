/-
  Which files a directory listing has.

  The listing of a directory is a walk through its entries, and the paths it gives are put together
  from the directory's own spelling and the names on the way.  Two laws say what comes out:

    * `mem_listFiles_iff`    the paths listed are those whose names lead to files from where the
                             directory is, in directories that are opened
    * `leadsTo_extend`       a path put together from names leads straight down

  So whether a file is listed, and under which path, can be told from where it stands.  No path is
  listed twice when the names in the tree are what a file system takes for names (`ProperNames`).
-/
import KotlinHarness.Proofs.Files.Growth
import KotlinHarness.Workspace.Staging

namespace KotlinHarness

namespace Forest

/-- What is below an ordered directory is ordered. -/
theorem ordered_of_get? {forest children : Forest} {location : Location} (ordered : forest.Ordered)
    (h : forest.get? location = some (.directory children)) : children.Ordered := by
  induction location generalizing forest with
  | nil =>
    rw [get?_nil] at h
    cases h
    exact ordered
  | cons name below ih =>
    rw [get?_cons] at h
    rcases hchild : forest.child? name with - | node
    · simp [hchild] at h
    · rw [hchild, Option.bind_some] at h
      have hnode : ∀ {inner : Forest}, node = .directory inner → inner.Ordered := by
        intro inner hinner
        subst hinner
        clear ih h
        induction forest with
        | nil => cases hchild
        | file other data rest ih =>
          rw [child?] at hchild
          split at hchild
          · cases hchild
          · exact ih ordered.2 hchild
        | directory other children rest _ ih =>
          rw [child?] at hchild
          split at hchild
          · cases hchild
            exact ordered.2.1
          · exact ih ordered.2.2 hchild
      cases node with
      | file data => cases below <;> simp [Node.below?] at h
      | directory inner => exact ih (hnode rfl) h

end Forest

namespace Environment

variable {env : Environment} {dir p path : Path} {here location : Location} {below : List String}

/-! ## Paths put together from names -/

/-- What is wrong with a path is wrong with every path that goes on from it. -/
theorem pathFault_of_append {more : String} (nonempty : p.isEmpty = false)
    (htext : path.text = p.text ++ more) (fine : pathFault? path = none) : pathFault? p = none := by
  rw [pathFault?, htext] at fine
  split at fine
  · cases fine
  · next hnul =>
    split at fine
    · cases fine
    · split at fine
      · cases fine
      · next hlong =>
        have hnul : ¬ p.text.toList.contains (Char.ofNat 0) = true := by
          intro hm
          refine hnul ?_
          rw [List.contains_iff_mem] at hm ⊢
          rw [String.toList_append]
          exact List.mem_append_left _ hm
        have hlong : ¬ maxPathOctets < p.text.utf8ByteSize := by
          rw [String.utf8ByteSize_append] at hlong
          omega
        rw [pathFault?, if_neg hnul, if_neg (by simp [nonempty]), if_neg hlong]

theorem pathFault_of_div {name : String} (nonempty : p.isEmpty = false)
    (h : Path.IsSegment name) (fine : pathFault? (p / name) = none) : pathFault? p = none := by
  have htext := Path.text_div (p := p) h
  split at htext
  · exact pathFault_of_append nonempty htext fine
  · exact pathFault_of_append nonempty (htext.trans String.append_assoc) fine

/-- Where a path starts is told by the start of its text. -/
theorem start_of_append {more : String} (nonempty : p.isEmpty = false)
    (htext : path.text = p.text ++ more) : env.start p = env.start path := by
  rw [Path.isEmpty_eq_false_iff] at nonempty
  obtain ⟨first, rest, hfirst⟩ := List.exists_cons_of_ne_nil nonempty
  rw [start, start, Path.isAbsolute, Path.isAbsolute, htext, String.toList_append, hfirst]
  rfl

theorem start_div {name : String} (nonempty : p.isEmpty = false) (h : Path.IsSegment name) :
    env.start (p / name) = env.start p := by
  have htext := Path.text_div (p := p) h
  split at htext
  · exact (start_of_append nonempty htext).symm
  · exact (start_of_append nonempty (htext.trans String.append_assoc)).symm

/-- A name read from a path leads one step down from where the path leads. -/
theorem leadsTo_div {name : String} (nonempty : p.isEmpty = false) (h : Path.IsSegment name)
    (isName : FileTree.IsName name) (leads : env.LeadsTo (p / name) location) :
    ∃ here, env.LeadsTo p here ∧ location = here ++ [name] := by
  obtain ⟨node, hlocate⟩ := leads
  rw [locate] at hlocate
  split at hlocate
  · cases hlocate
  · next hfault =>
    obtain ⟨base, hbase, hp⟩ := Path.segments_div (p := p) h
    rw [start_div nonempty h, hbase] at hlocate
    obtain ⟨here, found, hbefore, hhere, hlocation⟩ := FileTree.follow_concat isName hlocate
    -- An empty segment at the end of the path stays where it is.
    have hwalk : ∃ found, env.files.follow (env.start p) p.segments = .ok (here, found) := by
      rcases hp with rfl | hp
      · exact ⟨found, hbefore⟩
      · obtain ⟨children, hchildren⟩ := FileTree.look_directory_iff.1 hhere
        refine ⟨.directory children, ?_⟩
        rw [← hp, FileTree.follow_append, hbefore]
        simp only
        rw [FileTree.follow_cons hhere, if_pos (by simp [Path.isIdle]), FileTree.follow_nil,
          hchildren]
    obtain ⟨found, hwalk⟩ := hwalk
    refine ⟨here, ⟨found, ?_⟩, hlocation⟩
    rw [locate, pathFault_of_div nonempty h hfault]
    exact hwalk

/-- A name that goes down and can be read from a path. -/
structure IsFileName (name : String) : Prop where
  entry : Path.IsEntry name
  isName : FileTree.IsName name

/-- Whether a name goes down can be seen in its characters. -/
instance (name : String) : Decidable (IsFileName name) :=
  decidable_of_iff (('/' ∉ name.toList ∧ name ≠ "") ∧ Path.isIdle name = false ∧ name ≠ "..")
    ⟨fun h => ⟨Path.isEntry_of_plain h.1, h.2⟩,
      fun h => ⟨⟨h.entry.segment, h.entry.nonempty⟩, h.isName⟩⟩

/-- A name without a dot goes down. -/
theorem isFileName_of_dot {name : String} (entry : Path.IsEntry name) (hdot : '.' ∉ name.toList) :
    IsFileName name := by
  have hplain : ∀ dots : String, '.' ∈ dots.toList → name ≠ dots :=
    fun dots hm heq => hdot (heq ▸ hm)
  refine ⟨entry, ?_, hplain ".." (by decide)⟩
  simp [Path.isIdle, entry.nonempty, hplain "." (by decide)]

/-- A name with an extension goes down. -/
theorem isFileName_extension {stem extension : String} (hstem : Path.IsEntry stem)
    (hextension : Path.IsEntry extension) : IsFileName (stem ++ "." ++ extension) := by
  have hlength : 3 ≤ (stem ++ "." ++ extension).toList.length := by
    have hpositive : ∀ {name : String}, Path.IsEntry name → 0 < name.toList.length :=
      fun h => List.length_pos_iff.2 fun hnil => h.nonempty (String.toList_eq_nil_iff.1 hnil)
    have := hpositive hstem
    have := hpositive hextension
    simp only [String.toList_append, List.length_append, show ".".toList.length = 1 from rfl]
    omega
  have hlong : ∀ short : String, short.toList.length < 3 → stem ++ "." ++ extension ≠ short := by
    intro short hshort heq
    rw [heq] at hlength
    omega
  have hsegment : Path.IsSegment (stem ++ "." ++ extension) := by
    intro hm
    simp only [String.toList_append, List.mem_append] at hm
    rcases hm with (hm | hm) | hm
    · exact hstem.segment hm
    · revert hm
      decide
    · exact hextension.segment hm
  refine ⟨⟨hsegment, hlong "" (by decide)⟩, ?_, hlong ".." (by decide)⟩
  simp [Path.isIdle, hlong "" (by decide), hlong "." (by decide)]

/-- A path that does not go up does not do so with names behind it. -/
theorem up_not_mem_extend {names : List String} (hnames : ∀ name ∈ names, IsFileName name)
    (h : ".." ∉ p.segments) : ".." ∉ (p.extend names).segments := by
  induction names generalizing p with
  | nil => exact h
  | cons name rest ih =>
    have hname := hnames name List.mem_cons_self
    apply ih fun other hm => hnames other (List.mem_cons_of_mem _ hm)
    obtain ⟨base, hbase, hp⟩ := Path.segments_div (p := p) hname.entry.segment
    intro hm
    rw [hbase, List.mem_append, List.mem_singleton] at hm
    rcases hm with hm | heq
    · apply h
      rcases hp with rfl | hp
      · exact hm
      · rw [← hp]
        exact List.mem_append_left _ hm
    · exact hname.isName.2 heq.symm

/-- Names read from a path lead straight down from where the path leads. -/
theorem leadsTo_extend (nonempty : p.isEmpty = false) (h : ∀ name ∈ below, IsFileName name)
    (leads : env.LeadsTo (p.extend below) location) :
    ∃ here, env.LeadsTo p here ∧ location = here ++ below := by
  induction below generalizing p with
  | nil => exact ⟨location, leads, (List.append_nil _).symm⟩
  | cons name rest ih =>
    have hname := h name List.mem_cons_self
    obtain ⟨middle, hmiddle, rfl⟩ :=
      ih (Path.isEmpty_div hname.entry) (fun other hm => h other (List.mem_cons_of_mem _ hm)) leads
    obtain ⟨here, hhere, rfl⟩ := leadsTo_div nonempty hname.entry.segment hname.isName hmiddle
    exact ⟨here, hhere, by simp⟩

/-- What stands above a path that the system takes has one, too. -/
theorem pathFault_of_extend {names more : List String} (nonempty : p.isEmpty = false)
    (hnames : ∀ name ∈ names ++ more, IsFileName name)
    (fine : pathFault? (p.extend (names ++ more)) = none) : pathFault? (p.extend names) = none := by
  induction more generalizing names with
  | nil => rwa [List.append_nil] at fine
  | cons name rest ih =>
    rw [List.append_cons] at hnames fine
    have hfine := ih hnames fine
    have hinit : ∀ other ∈ names ++ [name], IsFileName other :=
      fun other hm => hnames other (List.mem_append_left _ hm)
    have hempty : (p.extend names).isEmpty = false :=
      Path.isEmpty_extend nonempty fun other hm => (hinit other (List.mem_append_left _ hm)).entry
    have hlast := hinit name (List.mem_append_right _ List.mem_cons_self)
    rw [Path.extend_concat] at hfine
    exact pathFault_of_div hempty hlast.entry.segment hfine

/-! ## Directories that are opened -/

/-- A walk opens the directory it starts from. -/
theorem opens_of_leadsTo (leads : env.LeadsTo p location) : opens p [] = true := by
  obtain ⟨node, hlocate⟩ := leads
  exact Option.isNone_iff_eq_none.2 (follow_of_locate hlocate).1

/-- It opens the directory of everything with a path that the system takes. -/
theorem opens_dropLast (nonempty : p.isEmpty = false) (h : ∀ name ∈ below, IsFileName name)
    (fine : pathFault? (p.extend below) = none) : opens p below.dropLast = true := by
  rw [opens, Option.isNone_iff_eq_none]
  rcases List.eq_nil_or_concat below with rfl | ⟨init, last, rfl⟩
  · exact fine
  · rw [List.concat_eq_append] at h fine ⊢
    rw [List.dropLast_concat]
    exact pathFault_of_extend nonempty h fine

/-! ## Listings -/

/-- What stands below a directory is what its entries say. -/
theorem look_append {children : Forest} (h : env.files.get? here = some (.directory children))
    (below : Location) : env.look (here ++ below) = children.look below := by
  show (env.files.root.get? (here ++ below)).map Node.kind = _
  rw [Forest.get?_append, show env.files.root.get? here = _ from h]
  rfl

/-- The files listed are those that names lead to from where the directory is, as far as the
    directories they are in are opened. -/
theorem mem_listFiles_iff :
    path ∈ env.listFiles dir ↔ ∃ here below data, env.LeadsTo dir here ∧
      env.look (here ++ below) = some (.file data) ∧ path = dir.extend below ∧
      opens dir below.dropLast = true := by
  rw [listFiles, filesBelow]
  rcases hlocate : env.locate dir with cause | ⟨here, data | children⟩
  · simp only [List.not_mem_nil, false_iff]
    rintro ⟨here, below, data, ⟨node, hleads⟩, -, -⟩
    rw [hlocate] at hleads
    cases hleads
  · obtain ⟨hleads, hlook⟩ := locate_file_iff.1 hlocate
    simp only [List.map_cons, List.map_nil, List.mem_singleton]
    constructor
    · rintro rfl
      exact ⟨here, [], data, hleads, by rw [List.append_nil, hlook], rfl, opens_of_leadsTo hleads⟩
    · rintro ⟨other, below, found, hother, hfile, rfl, -⟩
      -- Nothing is below a file.
      obtain rfl := hleads.unique hother
      cases below with
      | nil => rfl
      | cons name rest =>
        have hdirectory : env.look here = some .directory := by
          have hpresent : env.files.look (here ++ name :: rest) ≠ none := by
            rw [← look, hfile]
            exact Option.some_ne_none _
          exact FileTree.look_of_look_append (List.cons_ne_nil name rest) hpresent
        rw [hdirectory] at hlook
        cases hlook
  · have hget := get?_of_locate hlocate
    have hordered : children.Ordered := Forest.ordered_of_get? env.files.ordered hget
    simp only [List.mem_map, List.mem_filter]
    constructor
    · rintro ⟨⟨below, data⟩, ⟨hm, hopens⟩, rfl⟩
      refine ⟨here, below, data, ⟨_, hlocate⟩, ?_, rfl, hopens⟩
      rw [look_append hget]
      exact (Forest.mem_files_iff hordered).1 hm
    · rintro ⟨other, below, data, hother, hfile, rfl, hopens⟩
      obtain rfl := LeadsTo.unique ⟨_, hlocate⟩ hother
      rw [look_append hget] at hfile
      exact ⟨(below, data), ⟨(Forest.mem_files_iff hordered).2 hfile, hopens⟩, rfl⟩

/-- The names on the way to files are names of files: not empty, no dots alone, without a slash. -/
def ProperNames (env : Environment) : Prop :=
  ∀ location data, env.look location = some (.file data) → ∀ name ∈ location, IsFileName name

theorem properNames_of_files
    (h : ∀ found ∈ env.files.root.files, ∀ name ∈ found.1, IsFileName name) : env.ProperNames :=
  fun _ _ hlook => h _ ((Forest.mem_files_iff env.files.ordered).2 hlook)

theorem nodup_listFiles (proper : env.ProperNames) (dir : Path) : (env.listFiles dir).Nodup := by
  rw [listFiles, filesBelow]
  rcases hlocate : env.locate dir with cause | ⟨here, data | children⟩
  · exact List.nodup_nil
  · exact List.pairwise_singleton _ _
  · have hget := get?_of_locate hlocate
    have hordered : children.Ordered := Forest.ordered_of_get? env.files.ordered hget
    have hentry : ∀ found ∈ children.files, ∀ name ∈ found.1, Path.IsEntry name := by
      intro found hm name hname
      have hfile : env.look (here ++ found.1) = some (.file found.2) := by
        rw [look_append hget]
        exact (Forest.mem_files_iff hordered).1 hm
      exact (proper _ _ hfile name (List.mem_append_right _ hname)).entry
    refine List.pairwise_map.2 (((Forest.nodup_files hordered).filter _).imp_of_mem ?_)
    intro first second hfirst hsecond hne heq
    exact hne (Path.extend_inj (hentry first (List.mem_filter.1 hfirst).1)
      (hentry second (List.mem_filter.1 hsecond).1) heq)

/-! ## Sources -/

theorem mem_findSources_iff {language : Language} :
    path ∈ findSources env dir language ↔ Language.ofPath? path = some language ∧
      ∃ here below data, env.LeadsTo dir here ∧ env.look (here ++ below) = some (.file data) ∧
        path = dir.extend below ∧ opens dir below.dropLast = true := by
  rw [findSources, List.mem_filter, mem_listFiles_iff, decide_eq_true_iff, and_comm]

/-- A location whose last name has the extension of a language. -/
def IsSource (location : Location) : Prop :=
  ∃ before name language, location = before ++ [name] ∧
    (Path.splitName name).2.bind Language.ofExtension? = some language

theorem ofPath?_extend {init : List String} {name : String} (h : IsFileName name) :
    Language.ofPath? (dir.extend (init ++ [name])) =
      (Path.splitName name).2.bind Language.ofExtension? := by
  obtain ⟨base, hbase, -⟩ := Path.segments_div (p := dir.extend init) h.entry.segment
  rw [Language.ofPath?, Path.extend_concat,
    Path.extension?_of_segments hbase h.isName.1 h.isName.2]

/-- The language of a file that is listed is told by the last name of its location. -/
theorem language_of_listed {data : FileData} (names : ∀ name ∈ below, IsFileName name)
    (leads : env.LeadsTo dir here) (hfile : env.look (here ++ below) = some (.file data)) :
    ∃ before name, here ++ below = before ++ [name] ∧
      Language.ofPath? (dir.extend below) =
        (Path.splitName name).2.bind Language.ofExtension? := by
  rcases List.eq_nil_or_concat below with rfl | ⟨init, last, rfl⟩
  · -- The directory is a file itself, and its path ends in the name of that file.
    rw [List.append_nil] at hfile ⊢
    have hlocate := locate_file_iff.2 ⟨leads, hfile⟩
    rw [locate] at hlocate
    split at hlocate
    · cases hlocate
    · obtain ⟨base, last, hsegments⟩ := dir.exists_last_segment
      rw [hsegments] at hlocate
      obtain ⟨hlast, before, hbefore⟩ := FileTree.name_of_follow_file hlocate
      refine ⟨before, last, hbefore, ?_⟩
      show dir.extension?.bind _ = _
      rw [Path.extension?_of_segments hsegments hlast.1 hlast.2]
  · rw [List.concat_eq_append] at names ⊢
    have hlast := names last (List.mem_append_right _ List.mem_cons_self)
    exact ⟨here ++ init, last, (List.append_assoc _ _ _).symm, ofPath?_extend hlast⟩

theorem nodup_findSources (proper : env.ProperNames) (dir : Path) (language : Language) :
    (findSources env dir language).Nodup :=
  (nodup_listFiles proper dir).filter _

end Environment

/-! ## Components -/

namespace Path

variable {p : Path}

theorem isAbsolute_div_segment {name : String} (h : IsSegment name) :
    (p / name).isAbsolute = p.isAbsolute := by
  by_cases hempty : p.isEmpty = true
  · have htext := text_div (p := p) h
    rw [isEmpty, String.isEmpty_iff] at hempty
    rw [if_pos (by simp [isEmpty, hempty]), hempty, String.empty_append] at htext
    rw [show p / name = ⟨name⟩ from congrArg Path.mk htext, isAbsolute_segment h, isAbsolute, hempty]
    rfl
  · obtain ⟨c, rest, hc⟩ :=
      List.exists_cons_of_ne_nil (isEmpty_eq_false_iff.1 (Bool.eq_false_iff.2 hempty))
    rw [isAbsolute, isAbsolute, text_div h]
    split <;> simp [String.toList_append, hc]

theorem components_div {name : String} (h : Environment.IsFileName name) :
    (p / name).components = p.components ++ [.normal name] := by
  obtain ⟨base, hbase, hp⟩ := segments_div (p := p) h.entry.segment
  have hcomponent : Component.ofSegment? name = some (.normal name) := by
    have hidle : ¬ (name = "" ∨ name = ".") := by simpa [isIdle] using h.isName.1
    simp [Component.ofSegment?, hidle, h.isName.2]
  -- The empty segment that a slash at the end leaves is no component, and no dot.
  have hbody : base.filterMap Component.ofSegment? = p.segments.filterMap Component.ofSegment? := by
    rcases hp with rfl | hp
    · rfl
    · rw [← hp, List.filterMap_append]
      simp [Component.ofSegment?]
  have hdot : name ≠ "." := by
    rintro rfl
    exact absurd h.isName.1 (by decide)
  have hhead : (base ++ [name]).head? = some "." ↔ p.segments.head? = some "." := by
    rcases base with - | ⟨first, rest⟩
    · rcases hp with hp | hp
      · exact absurd (List.map_eq_nil_iff.1 hp.symm) (Text.splitWhere_ne_nil _ _)
      · simp [← hp, hdot]
    · rcases hp with hp | hp <;> simp [← hp]
  simp only [components, hbase, isAbsolute_div_segment h.entry.segment, List.filterMap_append, hbody, hhead]
  split
  · simp [hcomponent]
  · split <;> simp [hcomponent]

/-- Names read from a path add one component each. -/
theorem components_extend {below : List String} (h : ∀ name ∈ below, Environment.IsFileName name) :
    (p.extend below).components = p.components ++ below.map .normal := by
  induction below generalizing p with
  | nil => exact (List.append_nil _).symm
  | cons name rest ih =>
    rw [extend_cons, ih fun other hm => h other (List.mem_cons_of_mem _ hm),
      components_div (h name List.mem_cons_self), List.append_assoc]
    rfl

end Path

end KotlinHarness
