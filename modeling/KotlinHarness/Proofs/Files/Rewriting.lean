/-
  Writing again what was written before.

  A path that leads to a file has a directory above it, so nothing has to be created to write it
  once more: `deposit_at_file` says exactly what becomes of the environment then.  Only that file
  can change, and with the text it holds already nothing does.

    * `ext_of_look`                     two trees that hold the same at every location are the same tree
    * `makeDirectories_of_isDirectory`  creating a directory that is there changes nothing
    * `deposit_at_file`                 a text put into a file that is there
    * `deposit_file`                    what is there after a text was put into a file
-/
import KotlinHarness.Proofs.Files.Listing

namespace KotlinHarness

/-! ## Trees that hold the same -/

namespace Forest

theorem mem_names_iff_look {forest : Forest} {name : String} :
    name ∈ forest.names ↔ forest.look [name] ≠ none := by
  rw [mem_names_iff, look_cons]
  rcases forest.child? name with - | node
  · simp
  · cases node <;> simp

/-- Trees that hold the same start with the same name. -/
theorem first_eq {forest other : Forest} {name name' : String} {names names' : List String}
    (h : ∀ location, forest.look location = other.look location)
    (hforest : forest.names = name :: names) (hother : other.names = name' :: names')
    (above : ∀ next ∈ names, name < next) (above' : ∀ next ∈ names', name' < next) :
    name = name' := by
  have hnames : ∀ wanted, wanted ∈ name :: names ↔ wanted ∈ name' :: names' := by
    intro wanted
    rw [← hforest, ← hother, mem_names_iff_look, mem_names_iff_look, h]
  rcases List.mem_cons.1 ((hnames name).1 List.mem_cons_self) with heq | hm
  · exact heq
  · rcases List.mem_cons.1 ((hnames name').2 List.mem_cons_self) with heq | hm'
    · exact heq.symm
    · exact absurd (above' name hm) (String.lt_asymm (above name' hm'))

/-- What stands behind the first entry of a tree. -/
theorem look_rest {name : String} {rest forest : Forest} {node : Node}
    (above : ∀ other ∈ rest.names, name < other)
    (h : ∀ wanted, forest.child? wanted = if name = wanted then some node else rest.child? wanted)
    (wanted : String) (below : Location) :
    rest.look (wanted :: below) = if name = wanted then none else forest.look (wanted :: below) := by
  split
  · next heq => rw [look_cons, ← heq, child?_eq_none above]
  · next hne => rw [look_cons, look_cons, h, if_neg hne]

/-- Behind first entries of one name, trees that hold the same hold the same. -/
theorem look_rest_eq {name : String} {rest rest' forest other : Forest} {node node' : Node}
    (h : ∀ location, forest.look location = other.look location)
    (above : ∀ next ∈ rest.names, name < next) (above' : ∀ next ∈ rest'.names, name < next)
    (hforest : ∀ wanted, forest.child? wanted = if name = wanted then some node else rest.child? wanted)
    (hother : ∀ wanted, other.child? wanted = if name = wanted then some node' else rest'.child? wanted)
    (location : Location) : rest.look location = rest'.look location := by
  cases location with
  | nil => rw [look_nil, look_nil]
  | cons wanted below => rw [look_rest above hforest, look_rest above' hother, h]

/-- Trees that hold the same at every location are the same. -/
theorem ext_of_look {forest other : Forest} (ordered : forest.Ordered) (ordered' : other.Ordered)
    (h : ∀ location, forest.look location = other.look location) : forest = other := by
  have nonempty : ∀ {tree : Forest} {name : String}, name ∈ tree.names →
      ¬ ∀ location, (nil : Forest).look location = tree.look location := by
    intro tree name hm hnil
    rw [mem_names_iff_look, ← hnil] at hm
    exact hm rfl
  induction forest generalizing other with
  | nil =>
    cases other with
    | nil => rfl
    | file name data rest => exact absurd h (nonempty List.mem_cons_self)
    | directory name children rest => exact absurd h (nonempty List.mem_cons_self)
  | file name data rest ih =>
    cases other with
    | nil => exact absurd (fun location => (h location).symm) (nonempty List.mem_cons_self)
    | file name' data' rest' =>
      obtain rfl := first_eq h rfl rfl ordered.1 ordered'.1
      have hdata : data = data' := by simpa [look_cons, child?] using h [name]
      have hrest := look_rest_eq h ordered.1 ordered'.1 (fun _ => rfl) fun _ => rfl
      rw [hdata, ih ordered.2 ordered'.2 hrest]
    | directory name' children' rest' =>
      obtain rfl := first_eq h rfl rfl ordered.1 ordered'.1
      simpa [look_cons, child?] using h [name]
  | directory name children rest ihc ih =>
    cases other with
    | nil => exact absurd (fun location => (h location).symm) (nonempty List.mem_cons_self)
    | file name' data' rest' =>
      obtain rfl := first_eq h rfl rfl ordered.1 ordered'.1
      simpa [look_cons, child?] using h [name]
    | directory name' children' rest' =>
      obtain rfl := first_eq h rfl rfl ordered.1 ordered'.1
      have hchildren : ∀ below, children.look below = children'.look below := by
        intro below
        simpa [look_cons, child?] using h (name :: below)
      have hrest := look_rest_eq h ordered.1 ordered'.1 (fun _ => rfl) fun _ => rfl
      rw [ihc ordered.2.1 ordered'.2.1 hchildren, ih ordered.2.2 ordered'.2.2 hrest]

end Forest

namespace Environment

variable {env : Environment} {p : Path} {location : Location} {data : FileData}

/-- Environments with the same files at every location are the same when the rest is. -/
theorem ext_of_look {other : Environment} (rest : other = { env with files := other.files })
    (h : ∀ location, other.look location = env.look location) : other = env := by
  have hroot : other.files.root = env.files.root :=
    Forest.ext_of_look other.files.ordered env.files.ordered h
  have hfiles : other.files = env.files := by
    rcases hother : other.files with ⟨root, ordered⟩
    rcases henv : env.files with ⟨root', ordered'⟩
    rw [hother, henv] at hroot
    cases hroot
    rfl
  rw [rest, hfiles]

/-! ## Directories that are there -/

theorem isDirectory_iff :
    env.isDirectory p = true ↔ ∃ location children, env.locate p = .ok (location, .directory children)
    := by
  rw [isDirectory]
  rcases env.locate p with cause | ⟨location, data | children⟩
  · simp
  · simp
  · simp

theorem nonempty_of_isDirectory (h : env.isDirectory p = true) : p.isEmpty = false := by
  obtain ⟨here, children, hlocate⟩ := isDirectory_iff.1 h
  exact LeadsTo.nonempty ⟨_, hlocate⟩

/-- The last segment of a path is looked for where the names before it lead. -/
theorem locateParent_concat {init : List String} {last : String} {here : Location}
    {children : Forest} (fine : pathFault? p = none) (hnames : p.names = init ++ [last])
    (hinit : env.files.follow (env.start p) init = .ok (here, .directory children)) :
    env.locateParent p =
      if last = "." || last = ".." then .ok (here, .noName)
      else .ok (here, .name last p.endsWithSlash) := by
  have hfilter : p.segments.filter (! ·.isEmpty) = init ++ [last] := hnames
  rw [locateParent, fine]
  simp only
  rw [hfilter, List.dropLast_concat, List.getLast?_concat, hinit]

/-- A walk along names, and its last step. -/
theorem follow_names_concat {init : List String} {last : String} {node : Node}
    (hnames : p.names = init ++ [last]) (h : env.locate p = .ok (location, node)) :
    ∃ here children, env.files.follow (env.start p) init = .ok (here, .directory children) ∧
      env.files.follow here [last] = .ok (location, node) := by
  rw [locate] at h
  split at h
  · cases h
  · have hwalk := FileTree.follow_filter h
    rw [show p.segments.filter (! ·.isEmpty) = _ from hnames, FileTree.follow_append] at hwalk
    rcases hinit : env.files.follow (env.start p) init with cause | ⟨here, found⟩
    · rw [hinit] at hwalk
      cases hwalk
    · rw [hinit] at hwalk
      have hlast : env.files.follow here [last] = .ok (location, node) := hwalk
      obtain ⟨children, hget⟩ :=
        FileTree.look_directory_iff.1 (FileTree.directory_of_follow hlast)
      have hfound := FileTree.get?_of_follow hinit
      rw [hget] at hfound
      cases hfound
      exact ⟨here, children, rfl, hlast⟩

/-- The last segment of a path that leads somewhere. -/
theorem locateParent_of_leads {node : Node} (h : env.locate p = .ok (location, node)) :
    (∃ here, env.locateParent p = .ok (here, .noName)) ∨
      ∃ here name, env.locateParent p = .ok (here, .name name p.endsWithSlash) ∧
        location = here ++ [name] ∧ name.utf8ByteSize ≤ maxNameOctets := by
  have fine : pathFault? p = none := by
    rw [locate] at h
    split at h
    · cases h
    · next hfault => exact hfault
  rcases List.eq_nil_or_concat p.names with hnil | ⟨init, last, hconcat⟩
  · -- Nothing but slashes: the path leads to the directory it starts in.
    obtain ⟨first, rest, hsegments⟩ := List.exists_cons_of_ne_nil p.segments_ne_nil
    rw [locate, fine, hsegments] at h
    obtain ⟨children, hstart⟩ := FileTree.look_directory_iff.1 (FileTree.directory_of_follow h)
    refine .inl ⟨env.start p, ?_⟩
    rw [locateParent, fine]
    simp only
    rw [show p.segments.filter (! ·.isEmpty) = [] from hnil, List.dropLast_nil,
      FileTree.follow_nil, hstart]
    rfl
  · rw [List.concat_eq_append] at hconcat
    obtain ⟨here, children, hinit, hlast⟩ := follow_names_concat hconcat h
    have hnonempty : last ≠ "" := by
      have hm : last ∈ p.segments.filter (! ·.isEmpty) := by
        rw [show p.segments.filter (! ·.isEmpty) = _ from hconcat]
        exact List.mem_append_right _ List.mem_cons_self
      simpa using (List.mem_filter.1 hm).2
    rw [locateParent_concat fine hconcat hinit]
    split
    · exact .inl ⟨here, rfl⟩
    · next hdots =>
      simp only [Bool.or_eq_true, decide_eq_true_eq, not_or] at hdots
      obtain ⟨hlocation, hshort⟩ := FileTree.step_of_follow
        ⟨by simp [Path.isIdle, hnonempty, hdots.1], hdots.2⟩ hlast
      exact .inr ⟨here, last, rfl, hlocation, hshort⟩

/-- A directory that is there is not created. -/
theorem makeDirectory_of_leads {node : Node} (h : env.locate p = .ok (location, node)) :
    makeDirectory p env = .error .alreadyExists env := by
  rw [makeDirectory]
  rcases locateParent_of_leads h with ⟨here, hparent⟩ | ⟨here, name, hparent, rfl, hshort⟩
  · rw [hparent]
  · rw [hparent]
    simp only
    rw [if_neg (Nat.not_lt.2 hshort), get?_of_locate h]

/-- Creating a directory that is there changes nothing. -/
theorem makeDirectories_of_isDirectory (h : env.isDirectory p = true) :
    makeDirectories p env = .ok () env := by
  obtain ⟨location, children, hlocate⟩ := isDirectory_iff.1 h
  rw [makeDirectories, makeDirectoriesUpTo]
  simp only [makeDirectory_of_leads hlocate, h]
  split <;> rfl

theorem makeDirectories_of_isEmpty (h : p.isEmpty = true) : makeDirectories p env = .ok () env := by
  rw [makeDirectories, makeDirectoriesUpTo]
  simp only [h, if_true]

/-! ## Files that are there -/

theorem segments_of_file (h : env.locate p = .ok (location, .file data)) :
    pathFault? p = none ∧
      ∃ before last, p.segments = before ++ [last] ∧ FileTree.IsName last := by
  rw [locate] at h
  split at h
  · cases h
  · next fine =>
    obtain ⟨before, last, hsegments⟩ := p.exists_last_segment
    rw [hsegments] at h
    exact ⟨fine, before, last, hsegments, (FileTree.name_of_follow_file h).1⟩

/-- The last segment of a path that leads to a file is the name of the file. -/
theorem locateParent_of_file (h : env.locate p = .ok (location, .file data)) :
    ∃ here name, env.locateParent p = .ok (here, .name name false) ∧ location = here ++ [name] ∧
      name.utf8ByteSize ≤ maxNameOctets := by
  obtain ⟨fine, before, last, hsegments, hname⟩ := segments_of_file h
  have hnonempty : last ≠ "" := by
    intro hempty
    rw [hempty] at hname
    exact absurd hname.1 (by decide)
  have hdots : ¬ (last = "." || last = "..") = true := by
    intro hdots
    rcases Bool.or_eq_true_iff.1 hdots with hdot | hup
    · rw [of_decide_eq_true hdot] at hname
      exact absurd hname.1 (by decide)
    · exact hname.2 (of_decide_eq_true hup)
  have hnames : p.names = before.filter (! ·.isEmpty) ++ [last] := by
    rw [Path.names, hsegments, List.filter_append,
      List.filter_cons_of_pos (by simpa using hnonempty), List.filter_nil]
  obtain ⟨here, children, hinit, hlast⟩ := follow_names_concat hnames h
  obtain ⟨hlocation, hshort⟩ := FileTree.step_of_follow hname hlast
  refine ⟨here, last, ?_, hlocation, hshort⟩
  rw [locateParent_concat fine hnames hinit, if_neg hdots,
    Path.endsWithSlash_of_segments hsegments hnonempty]

/-- Above a file there is a directory. -/
theorem parent_of_file (h : env.locate p = .ok (location, .file data)) :
    ∃ parent, p.parent? = some parent ∧
      (parent.isEmpty = true ∨ env.isDirectory parent = true) := by
  obtain ⟨fine, before, last, hsegments, hname⟩ := segments_of_file h
  rcases Path.parent?_of_segments hsegments hname.1 with
    ⟨-, hparent⟩ | ⟨parent, hparent, hof⟩
  · exact ⟨⟨""⟩, hparent, .inl rfl⟩
  · refine ⟨parent, hparent, .inr ?_⟩
    obtain ⟨more, htext⟩ := hof.start p [last] (nonempty_of_pathFault fine) hsegments
    obtain ⟨kept, idle, idle', hbefore, hkept, -, hidle, hidle'⟩ := hof.segments
    rw [locate, fine] at h
    simp only at h
    rw [hsegments] at h
    obtain ⟨here, found, hwalk, hhere, -⟩ := FileTree.follow_concat hname h
    rw [hbefore] at hwalk
    obtain ⟨children, hdirectory⟩ := FileTree.follow_append_idle hidle hidle' hwalk hhere
    have hstart : env.start parent = env.start p := start_of_append hof.nonempty htext
    refine isDirectory_iff.2 ⟨here, children, ?_⟩
    rw [locate, pathFault_of_append hof.nonempty htext fine]
    simp only
    rw [hstart, hkept, hdirectory]

/-- Putting a file where one is changes that file and no other. -/
theorem look_put_file (h : env.look location = some (.file data)) (new : FileData)
    (other : Location) :
    (env.put location (.file new)).look other =
      if other = location then some (.file new) else env.look other := by
  rcases List.eq_nil_or_concat location with rfl | ⟨here, name, rfl⟩
  · have hroot : env.look [] = some .directory := Forest.look_nil env.files.root
    rw [hroot] at h
    cases h
  · rw [List.concat_eq_append] at h ⊢
    have hpresent : env.files.look (here ++ [name]) ≠ none := by
      rw [show env.files.look (here ++ [name]) = _ from h]
      simp
    have hhere : env.look here = some .directory :=
      FileTree.look_of_look_append (by simp) hpresent
    exact look_put (.file new) hhere (by simp [h]) other

/-- Writing to a file that is there replaces its octets. -/
theorem write_at_file (h : env.locate p = .ok (location, .file data)) (bytes : Bytes) :
    write p bytes env = .ok () (env.put location (.file ⟨bytes, data.mode.overwritten⟩)) := by
  obtain ⟨here, name, hparent, rfl, hshort⟩ := locateParent_of_file h
  rw [write, hparent]
  simp only
  rw [if_neg (by simp), if_neg (Nat.not_lt.2 hshort), get?_of_locate h]

/-- So does writing a text. -/
theorem writeText_at_file (h : env.locate p = .ok (location, .file data)) (content : String) :
    writeText p content env =
      .ok () (env.put location (.file ⟨Text.encode content, data.mode.overwritten⟩)) := by
  obtain ⟨parent, hparent, hthere⟩ := parent_of_file h
  have hdirectories : makeDirectories parent env = .ok () env :=
    hthere.elim makeDirectories_of_isEmpty makeDirectories_of_isDirectory
  rw [writeText, hparent]
  simp only
  rw [bind_eq, FileAction.during, hdirectories]
  simp only
  rw [FileAction.during, write_at_file h]

/-- A file holds a text when its octets are those of the text. -/
theorem holds_iff (h : env.locate p = .ok (location, .file data)) {content : String} :
    env.holds p content = true ↔ data.bytes = Text.encode content := by
  rw [holds, readText, read, h]
  simp only
  constructor
  · intro hholds
    split at hholds
    · next text hdecode =>
      split at hdecode
      · next hdecode' =>
        cases hdecode
        rw [← beq_iff_eq.1 hholds, Text.encode_of_decode? hdecode']
      · cases hdecode
    · cases hholds
  · intro hbytes
    rw [hbytes, Text.decode?_encode]
    simp

/-- **A text put into a file that is there.** -/
theorem deposit_at_file (h : env.locate p = .ok (location, .file data)) (overwrite : Overwrite)
    (content : String) :
    deposit overwrite p content env =
      if overwrite = .ifChanged ∧ data.bytes = Text.encode content then .ok .unchanged env
      else .ok .written (env.put location (.file ⟨Text.encode content, data.mode.overwritten⟩)) := by
  have hsame : (decide (overwrite = .ifChanged) && env.holds p content) = true ↔
      overwrite = .ifChanged ∧ data.bytes = Text.encode content := by
    rw [Bool.and_eq_true, decide_eq_true_eq, holds_iff h]
  rw [deposit]
  split
  · next hif => rw [if_pos (hsame.1 hif)]
  · next hif =>
    rw [if_neg fun hboth => hif (hsame.2 hboth), bind_eq, writeText_at_file h]
    rfl

/-! ## Files that were written -/

/-- What putting a text into a file does: the file holds the text, and was left alone or
    overwritten. -/
theorem deposit_file {after : Environment} {overwrite : Overwrite} {content : String} {done : Deposit}
    (h : deposit overwrite p content env = .ok done after) :
    ∃ location data, after.locate p = .ok (location, .file data) ∧
      data.bytes = Text.encode content ∧ Grows (fun other _ => other = location) env after ∧
      (after = env ∨ data.mode.overwritten = data.mode) := by
  have hdeposited := deposit_ok h
  obtain ⟨location, data, text, hlocate, hdecode⟩ := readable_iff.1 ⟨content, hdeposited.readText⟩
  have htext : text = content := by
    have hread := hdeposited.readText
    rw [readText, read, hlocate] at hread
    simp only [hdecode, Except.ok.injEq] at hread
    exact hread
  obtain ⟨hleads, -⟩ := locate_file_iff.1 hlocate
  refine ⟨location, data, hlocate, ?_, ?_, ?_⟩
  · rw [← htext, Text.encode_of_decode? hdecode]
  · exact hdeposited.grows.mono fun other _ hmay => hmay.1.unique hleads
  · rw [deposit] at h
    split at h
    · cases h
      exact .inl rfl
    · obtain ⟨_, last, hwrite, hdone⟩ := of_bind_ok h
      cases hdone
      obtain ⟨directories, -, heq⟩ := writeText_eq p content env
      rw [heq] at hwrite
      obtain ⟨_, middle, -, hwrite⟩ := of_bind_ok hwrite
      obtain ⟨there, mode, -, hmode, hthere, -⟩ := write_put (during_ok hwrite)
      rw [hlocate] at hthere
      cases hthere
      exact .inr hmode

end Environment

end KotlinHarness
