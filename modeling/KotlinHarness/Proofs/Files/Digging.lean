/-
  Creating directories below one that is there.

  Below a directory, names lead straight down, and what is missing is created from the top.  When
  that fails, it fails at one of the names: there is a file in its place, or it is too long.  What
  was created above it stays, and trying again fails there at once, for the same reason, in every
  environment that has at least the same files and directories:

    * `makeDirectoriesUpTo_extend`   after a failure the way is `Stuck`
    * `Stuck.mono`                   a way that is stuck stays so as the environment grows
    * `Stuck.makeDirectories`        where the way is stuck nothing is created
-/
import KotlinHarness.Proofs.Files.Rewriting

namespace KotlinHarness.Environment

variable {may : Location → FileData → Prop} {env old new after : Environment} {base p : Path}
  {here : Location} {children : Forest} {names init : List String} {name : String} {cause : IoError}

/-! ## Paths below a directory -/

theorem start_extend (nonempty : base.isEmpty = false) (h : ∀ name ∈ names, Path.IsEntry name) :
    env.start (base.extend names) = env.start base := by
  induction names generalizing base with
  | nil => rfl
  | cons name rest ih =>
    have hname := h name List.mem_cons_self
    rw [Path.extend_cons, ih (Path.isEmpty_div hname) fun other hm => h other (List.mem_cons_of_mem _ hm),
      start_div nonempty hname.segment]

/-- Names read from a directory are followed from there. -/
theorem locate_extend (hbase : env.locate base = .ok (here, .directory children))
    (hnames : ∀ name ∈ names, IsFileName name) (fine : pathFault? (base.extend names) = none) :
    env.locate (base.extend names) = env.files.follow here names := by
  obtain ⟨hfault, hwalk⟩ := follow_of_locate hbase
  have nonempty := nonempty_of_pathFault hfault
  rcases List.eq_nil_or_concat names with rfl | ⟨init, name, rfl⟩
  · rw [FileTree.follow_nil, get?_of_locate hbase]
    exact hbase
  · rw [List.concat_eq_append] at hnames fine ⊢
    have hlast := hnames name (List.mem_append_right _ List.mem_cons_self)
    have hentries : ∀ other ∈ init ++ [name], Path.IsEntry other :=
      fun other hm => (hnames other hm).entry
    obtain ⟨before, hbefore, -⟩ := Path.segments_div (p := base.extend init) hlast.entry.segment
    rw [← Path.extend_concat] at hbefore
    have hall : before.filter (! ·.isEmpty) ++ [name] = base.names ++ (init ++ [name]) := by
      rw [← Path.names_extend hentries, Path.names, hbefore, List.filter_append,
        List.filter_cons_of_pos (by simpa using hlast.entry.nonempty), List.filter_nil]
    rw [locate, fine]
    simp only
    rw [start_extend nonempty hentries, hbefore, FileTree.follow_named, hall, FileTree.follow_append,
      show base.names = base.segments.filter (! ·.isEmpty) from rfl, FileTree.follow_filter hwalk]

/-- The last of the names is looked for where the others lead. -/
theorem locateParent_extend (hbase : env.locate base = .ok (here, .directory children))
    (hnames : ∀ other ∈ init ++ [name], IsFileName other)
    (fine : pathFault? (base.extend (init ++ [name])) = none) :
    env.locateParent (base.extend (init ++ [name])) =
      match env.files.follow here init with
      | .error cause => .error cause
      | .ok (_, .file _) => .error .notADirectory
      | .ok (middle, .directory _) => .ok (middle, .name name false) := by
  obtain ⟨hfault, hwalk⟩ := follow_of_locate hbase
  have nonempty := nonempty_of_pathFault hfault
  have hlast := hnames name (List.mem_append_right _ List.mem_cons_self)
  have hentries : ∀ other ∈ init ++ [name], Path.IsEntry other :=
    fun other hm => (hnames other hm).entry
  obtain ⟨before, hbefore, -⟩ := Path.segments_div (p := base.extend init) hlast.entry.segment
  rw [← Path.extend_concat] at hbefore
  have hslash := Path.endsWithSlash_of_segments hbefore hlast.entry.nonempty
  have hfilter : (base.extend (init ++ [name])).segments.filter (! ·.isEmpty) =
      base.names ++ init ++ [name] := by
    rw [List.append_assoc, ← Path.names_extend hentries, Path.names]
  have hdots : ¬ (name = "." || name = "..") = true := by
    intro hdots
    rcases Bool.or_eq_true_iff.1 hdots with hdot | hup
    · rw [of_decide_eq_true hdot] at hlast
      exact absurd hlast.isName.1 (by decide)
    · exact hlast.isName.2 (of_decide_eq_true hup)
  rw [locateParent, fine]
  simp only
  rw [hfilter, List.dropLast_concat, List.getLast?_concat, start_extend nonempty hentries,
    FileTree.follow_append, show base.names = base.segments.filter (! ·.isEmpty) from rfl,
    FileTree.follow_filter hwalk, hslash]
  simp only
  rcases env.files.follow here init with cause | ⟨middle, data | inner⟩
  · rfl
  · rfl
  · exact if_neg hdots

/-- The parent of what is below a directory, but not directly. -/
theorem parent?_extend {last : String} (hlast : IsFileName last) (hname : IsFileName name) :
    (base.extend (init ++ [last] ++ [name])).parent? = some (base.extend (init ++ [last])) := by
  have busy : Path.isIdle last = false := hlast.isName.1
  obtain ⟨before, hbefore, -⟩ := Path.segments_div (p := base.extend init) hlast.entry.segment
  rw [← Path.extend_concat] at hbefore
  obtain ⟨above, habove, hsame⟩ :=
    Path.segments_div (p := base.extend (init ++ [last])) hname.entry.segment
  have hsegments : above = before ++ [last] := by
    rcases hsame with rfl | hsame
    · exact hbefore
    · rw [hbefore] at hsame
      obtain ⟨-, hempty⟩ := List.append_inj' hsame rfl
      cases hempty
      exact absurd busy (by decide)
  have hkept : Path.dropIdleEnd (before ++ [last]) = before ++ [last] := by
    cases before with
    | nil => rfl
    | cons first rest =>
      rw [List.cons_append, Path.dropIdleEnd, List.reverse_append, List.reverse_singleton,
        List.singleton_append, List.dropWhile_cons_of_neg (by simp [busy]), List.reverse_cons,
        List.reverse_reverse]
  rw [Path.extend_concat base (init ++ [last]) name, Path.parent?,
    Path.splitLast?_of_segments habove hname.isName.1]
  simp only
  rw [hsegments, hkept]
  split
  · next heq =>
    -- The last of the segments is not empty.
    obtain ⟨-, hempty⟩ := List.append_inj' (show before ++ [last] = [] ++ [""] from heq) rfl
    cases hempty
    exact absurd busy (by decide)
  · rw [← hbefore, Path.ofSegments_segments]

/-- The parent of what is directly below a directory is there. -/
theorem parent_of_div (hbase : env.isDirectory base = true) (hname : IsFileName name) :
    ∃ parent, (base / name).parent? = some parent ∧
      (parent.isEmpty = true ∨ env.isDirectory parent = true) := by
  obtain ⟨here, children, hlocate⟩ := isDirectory_iff.1 hbase
  obtain ⟨fine, hwalk⟩ := follow_of_locate hlocate
  have hhere : env.files.look here = some .directory :=
    FileTree.look_directory_iff.2 ⟨children, get?_of_locate hlocate⟩
  obtain ⟨before, hbefore, hsame⟩ := Path.segments_div (p := base) hname.entry.segment
  rcases Path.parent?_of_segments hbefore hname.isName.1 with
    ⟨-, hparent⟩ | ⟨parent, hparent, hof⟩
  · exact ⟨⟨""⟩, hparent, .inl rfl⟩
  · refine ⟨parent, hparent, .inr ?_⟩
    obtain ⟨kept, idle, idle', hkept, hsegments, hne, hidle, hidle'⟩ := hof.segments
    -- Up to idle segments at the end, the parent is the directory.
    obtain ⟨more, hmore, hidleMore⟩ : ∃ more, base.segments = before ++ more ∧
        ∀ segment ∈ more, Path.isIdle segment = true := by
      rcases hsame with rfl | hsame
      · exact ⟨[], (List.append_nil _).symm, fun _ hm => absurd hm List.not_mem_nil⟩
      · exact ⟨[""], hsame.symm, fun segment hm => by rw [List.mem_singleton.1 hm]; rfl⟩
    have nonempty := nonempty_of_pathFault fine
    obtain ⟨text, htext⟩ := hof.start base more nonempty hmore
    rw [hmore, hkept, List.append_assoc] at hwalk
    obtain ⟨inner, hinner⟩ := FileTree.follow_append_idle
      (fun segment hm => (List.mem_append.1 hm).elim (hidle segment) (hidleMore segment))
      hidle' hwalk hhere
    refine isDirectory_iff.2 ⟨here, inner, ?_⟩
    rw [locate, pathFault_of_append hof.nonempty htext fine]
    simp only
    rw [start_of_append hof.nonempty htext, hsegments, hinner]

/-! ## One directory -/

theorem fault_ne_notFound {fault : IoError} (nonempty : p.isEmpty = false)
    (h : pathFault? p = some fault) : fault ≠ .notFound := by
  rw [pathFault?, nonempty] at h
  split at h
  · cases h
    decide
  · split at h
    · next hempty => cases hempty
    · split at h
      · cases h
        decide
      · cases h

theorem makeDirectory_fault {fault : IoError} (h : pathFault? p = some fault) :
    makeDirectory p env = .error fault env ∧ env.isDirectory p = false := by
  rw [makeDirectory, locateParent, isDirectory, locate, h]
  exact ⟨rfl, rfl⟩

/-- Creating a directory, read off the walk to where it goes. -/
theorem makeDirectory_extend (hbase : env.locate base = .ok (here, .directory children))
    (hnames : ∀ other ∈ init ++ [name], IsFileName other)
    (fine : pathFault? (base.extend (init ++ [name])) = none) :
    makeDirectory (base.extend (init ++ [name])) env =
      match env.files.follow here init with
      | .error cause => .error cause env
      | .ok (_, .file _) => .error .notADirectory env
      | .ok (middle, .directory _) =>
        if maxNameOctets < name.utf8ByteSize then .error .nameTooLong env
        else if env.look (middle ++ [name]) = none then
          .ok () (env.put (middle ++ [name]) .directory)
        else .error .alreadyExists env := by
  rw [makeDirectory, locateParent_extend hbase hnames fine]
  rcases env.files.follow here init with cause | ⟨middle, data | inner⟩
  · rfl
  · rfl
  · simp only
    split
    · rfl
    · rcases hget : env.files.get? (middle ++ [name]) with - | node
      · exact (if_pos (FileTree.look_eq_none_iff.2 hget)).symm
      · refine (if_neg ?_).symm
        rw [look, FileTree.look_eq, hget]
        simp

/-- Whether there is a directory, read off the same walk. -/
theorem isDirectory_extend (hbase : env.locate base = .ok (here, .directory children))
    (hnames : ∀ other ∈ init ++ [name], IsFileName other)
    (fine : pathFault? (base.extend (init ++ [name])) = none) :
    env.isDirectory (base.extend (init ++ [name])) = true ↔
      ∃ middle inner, env.files.follow here init = .ok (middle, .directory inner) ∧
        name.utf8ByteSize ≤ maxNameOctets ∧ env.look (middle ++ [name]) = some .directory := by
  have isName := (hnames name (List.mem_append_right _ List.mem_cons_self)).isName
  rw [isDirectory_iff, locate_extend hbase hnames fine]
  constructor
  · rintro ⟨location, found, hfollow⟩
    obtain ⟨middle, node, hinit, hmiddle, rfl⟩ := FileTree.follow_concat isName hfollow
    obtain ⟨inner, hinner⟩ := FileTree.look_directory_iff.1 hmiddle
    have hnode := FileTree.get?_of_follow hinit
    rw [hinner] at hnode
    cases hnode
    have hlast := hfollow
    rw [FileTree.follow_append, hinit] at hlast
    exact ⟨middle, inner, hinit, (FileTree.step_of_follow isName hlast).2,
      FileTree.look_directory_iff.2 ⟨found, FileTree.get?_of_follow hfollow⟩⟩
  · rintro ⟨middle, inner, hinit, hshort, hlook⟩
    obtain ⟨found, hfound⟩ := FileTree.look_directory_iff.1 hlook
    exact ⟨middle ++ [name], found, FileTree.follow_down hinit isName hshort hfound⟩

/-! ## Ways that are stuck -/

/-- A directory cannot be created, and the reason is not that something above it is missing. -/
structure Stuck (p : Path) (cause : IoError) (env : Environment) : Prop where
  nonempty : p.isEmpty = false
  fails : makeDirectory p env = .error cause env
  there : cause ≠ .notFound
  noDirectory : env.isDirectory p = false

/-- Where the way is stuck nothing is created. -/
theorem Stuck.makeDirectories (h : Stuck p cause env) :
    makeDirectories p env = .error cause env := by
  rw [Environment.makeDirectories, makeDirectoriesUpTo]
  simp only [h.nonempty, h.fails, if_neg h.there, h.noDirectory, Bool.false_eq_true, if_false]

theorem Stuck.of_fault {fault : IoError} (nonempty : p.isEmpty = false)
    (h : pathFault? p = some fault) : Stuck p fault env :=
  ⟨nonempty, (makeDirectory_fault h).1, fault_ne_notFound nonempty h, (makeDirectory_fault h).2⟩

theorem isEmpty_extend (hnames : ∀ other ∈ init ++ [name], IsFileName other) :
    (base.extend (init ++ [name])).isEmpty = false := by
  rw [Path.extend_concat]
  exact Path.isEmpty_div (hnames name (List.mem_append_right _ List.mem_cons_self)).entry

/-- What a walk meets on the way to a directory that cannot be created. -/
inductive Obstacle (env : Environment) (here : Location) (init : List String) (name : String) :
    IoError → Prop
  | walk {cause : IoError} (there : cause ≠ .notFound)
      (h : env.files.follow here init = .error cause) : Obstacle env here init name cause
  | above {middle : Location} {data : FileData}
      (h : env.files.follow here init = .ok (middle, .file data)) :
      Obstacle env here init name .notADirectory
  | long {middle : Location} {inner : Forest}
      (h : env.files.follow here init = .ok (middle, .directory inner))
      (long : maxNameOctets < name.utf8ByteSize) : Obstacle env here init name .nameTooLong
  | file {middle : Location} {inner : Forest} {data : FileData}
      (h : env.files.follow here init = .ok (middle, .directory inner))
      (short : name.utf8ByteSize ≤ maxNameOctets)
      (there : env.look (middle ++ [name]) = some (.file data)) :
      Obstacle env here init name .alreadyExists

/-- There is no directory behind an obstacle. -/
theorem Obstacle.noDirectory {middle : Location} {inner : Forest}
    (h : Obstacle env here init name cause)
    (hwalk : env.files.follow here init = .ok (middle, .directory inner))
    (hshort : name.utf8ByteSize ≤ maxNameOctets) :
    env.look (middle ++ [name]) ≠ some .directory := by
  intro hlook
  cases h with
  | walk _ h => rw [h] at hwalk; cases hwalk
  | above h => rw [h] at hwalk; cases hwalk
  | long _ hlong => omega
  | file h _ there =>
    rw [h] at hwalk
    cases hwalk
    rw [there] at hlook
    cases hlook

theorem Obstacle.stuck (hbase : env.locate base = .ok (here, .directory children))
    (hnames : ∀ other ∈ init ++ [name], IsFileName other)
    (fine : pathFault? (base.extend (init ++ [name])) = none)
    (h : Obstacle env here init name cause) : Stuck (base.extend (init ++ [name])) cause env := by
  have hmake := makeDirectory_extend hbase hnames fine
  have noDirectory : env.isDirectory (base.extend (init ++ [name])) = false := by
    rw [← Bool.not_eq_true, isDirectory_extend hbase hnames fine]
    rintro ⟨middle, inner, hwalk, hshort, hlook⟩
    exact h.noDirectory hwalk hshort hlook
  cases h with
  | walk there h => exact ⟨isEmpty_extend hnames, by rw [hmake, h], there, noDirectory⟩
  | above h => exact ⟨isEmpty_extend hnames, by rw [hmake, h], by decide, noDirectory⟩
  | long h hlong =>
    refine ⟨isEmpty_extend hnames, ?_, by decide, noDirectory⟩
    rw [hmake, h]
    exact if_pos hlong
  | file h short there =>
    refine ⟨isEmpty_extend hnames, ?_, by decide, noDirectory⟩
    rw [hmake, h]
    simp only
    rw [if_neg (Nat.not_lt.2 short), if_neg (by simp [there])]

theorem Stuck.obstacle (hbase : env.locate base = .ok (here, .directory children))
    (hnames : ∀ other ∈ init ++ [name], IsFileName other)
    (fine : pathFault? (base.extend (init ++ [name])) = none)
    (h : Stuck (base.extend (init ++ [name])) cause env) : Obstacle env here init name cause := by
  obtain ⟨-, hfails, there, hno⟩ := h
  rw [makeDirectory_extend hbase hnames fine] at hfails
  rcases hwalk : env.files.follow here init with found | ⟨middle, data | inner⟩
  · simp only [hwalk, EStateM.Result.error.injEq, and_true] at hfails
    exact hfails ▸ .walk (hfails ▸ there) hwalk
  · simp only [hwalk, EStateM.Result.error.injEq, and_true] at hfails
    exact hfails ▸ .above hwalk
  · simp only [hwalk] at hfails
    split at hfails
    · next hlong =>
      cases hfails
      exact .long hwalk hlong
    · next hshort =>
      have hshort := Nat.le_of_not_lt hshort
      split at hfails
      · cases hfails
      · next hpresent =>
        cases hfails
        rcases hlook : env.look (middle ++ [name]) with - | (data | _)
        · exact absurd hlook hpresent
        · exact .file hwalk hshort hlook
        · have hthere := (isDirectory_extend hbase hnames fine).2
            ⟨middle, inner, hwalk, hshort, hlook⟩
          rw [hthere] at hno
          cases hno

/-- Below a directory, a way is stuck at an obstacle. -/
theorem stuck_iff (hbase : env.locate base = .ok (here, .directory children))
    (hnames : ∀ other ∈ init ++ [name], IsFileName other)
    (fine : pathFault? (base.extend (init ++ [name])) = none) :
    Stuck (base.extend (init ++ [name])) cause env ↔ Obstacle env here init name cause :=
  ⟨Stuck.obstacle hbase hnames fine, Obstacle.stuck hbase hnames fine⟩

/-- A walk ends at the same kind of thing in a larger environment. -/
theorem Grows.follow (grows : Grows may old new) {segments : List String} {location : Location}
    {node : Node} (h : old.files.follow here segments = .ok (location, node)) :
    ∃ node', new.files.follow here segments = .ok (location, node') ∧
      (node.kind = .directory → node'.kind = .directory) ∧
      ∀ data, node.kind = .file data → ∃ data', node'.kind = .file data' := by
  obtain ⟨node', hnew⟩ := FileTree.follow_mono grows.directories grows.present h
  have hold : old.look location = some node.kind := by
    rw [look, FileTree.look_eq, FileTree.get?_of_follow h]
    rfl
  have hkind : new.look location = some node'.kind := by
    rw [look, FileTree.look_eq, FileTree.get?_of_follow hnew]
    rfl
  refine ⟨node', hnew, fun hdirectory => ?_, fun data hfile => ?_⟩
  · rw [hdirectory] at hold
    rw [grows.directories hold] at hkind
    exact (Option.some.inj hkind).symm
  · rw [hfile] at hold
    obtain ⟨data', hdata⟩ := grows.files hold
    rw [hdata] at hkind
    exact ⟨data', (Option.some.inj hkind).symm⟩

theorem Grows.follow_directory (grows : Grows may old new) {segments : List String}
    {location : Location} {inner : Forest}
    (h : old.files.follow here segments = .ok (location, .directory inner)) :
    ∃ inner, new.files.follow here segments = .ok (location, .directory inner) := by
  obtain ⟨node, hnew, hdirectory, -⟩ := grows.follow h
  cases node with
  | file data => cases hdirectory rfl
  | directory inner => exact ⟨inner, hnew⟩

theorem Grows.follow_file (grows : Grows may old new) {segments : List String}
    {location : Location} {data : FileData}
    (h : old.files.follow here segments = .ok (location, .file data)) :
    ∃ data, new.files.follow here segments = .ok (location, .file data) := by
  obtain ⟨node, hnew, -, hfile⟩ := grows.follow h
  obtain ⟨data', hdata⟩ := hfile data rfl
  cases node with
  | file data => exact ⟨data, hnew⟩
  | directory inner => cases hdata

theorem Grows.locate_directory (grows : Grows may old new)
    (h : old.locate p = .ok (here, .directory children)) :
    ∃ children, new.locate p = .ok (here, .directory children) := by
  obtain ⟨fine, hwalk⟩ := follow_of_locate h
  obtain ⟨inner, hnew⟩ := grows.follow_directory hwalk
  refine ⟨inner, ?_⟩
  rw [locate, fine]
  simp only
  rw [start, grows.workingDirectory]
  exact hnew

theorem Grows.isDirectory (grows : Grows may old new) (h : old.isDirectory p = true) :
    new.isDirectory p = true := by
  obtain ⟨here, children, hlocate⟩ := isDirectory_iff.1 h
  obtain ⟨children', hnew⟩ := grows.locate_directory hlocate
  exact isDirectory_iff.2 ⟨here, children', hnew⟩

theorem Obstacle.mono (grows : Grows may old new) (h : Obstacle old here init name cause) :
    Obstacle new here init name cause := by
  cases h with
  | walk there h =>
    exact .walk there (FileTree.follow_error_mono grows.directories grows.files there h)
  | above h =>
    obtain ⟨_, hnew⟩ := grows.follow_file h
    exact .above hnew
  | long h hlong =>
    obtain ⟨_, hnew⟩ := grows.follow_directory h
    exact .long hnew hlong
  | file h short there =>
    obtain ⟨_, hnew⟩ := grows.follow_directory h
    obtain ⟨_, hfile⟩ := grows.files there
    exact .file hnew short hfile

/-- A way that is stuck stays so as the environment grows. -/
theorem Stuck.mono (h : Stuck (base.extend (init ++ [name])) cause old)
    (hbase : old.isDirectory base = true) (hnames : ∀ other ∈ init ++ [name], IsFileName other)
    (grows : Grows may old new) : Stuck (base.extend (init ++ [name])) cause new := by
  obtain ⟨here, children, hlocate⟩ := isDirectory_iff.1 hbase
  rcases fine : pathFault? (base.extend (init ++ [name])) with - | fault
  · obtain ⟨children', hnew⟩ := grows.locate_directory hlocate
    exact (stuck_iff hnew hnames fine).2 (((stuck_iff hlocate hnames fine).1 h).mono grows)
  · have hfails := h.fails
    rw [(makeDirectory_fault fine).1] at hfails
    cases hfails
    exact .of_fault h.nonempty fine

/-! ## Directories created in a row -/

/-- A name read from a directory is missing itself at most: nothing above it is. -/
theorem makeDirectory_directly (hbase : env.isDirectory base = true) (hname : IsFileName name) :
    makeDirectory (base / name) env ≠ .error .notFound env := by
  have hpath : base / name = base.extend ([] ++ [name]) := (Path.extend_concat base [] name).symm
  rw [hpath]
  have hnames : ∀ other ∈ [] ++ [name], IsFileName other :=
    fun other hm => by rwa [List.mem_singleton.1 hm]
  obtain ⟨here, children, hlocate⟩ := isDirectory_iff.1 hbase
  intro h
  rcases fine : pathFault? (base.extend ([] ++ [name])) with - | fault
  · have hwalk : env.files.follow here [] = .ok (here, .directory children) := by
      rw [FileTree.follow_nil, get?_of_locate hlocate]
    rw [makeDirectory_extend hlocate hnames fine, hwalk] at h
    simp only at h
    split at h
    · cases h
    · split at h <;> cases h
  · rw [(makeDirectory_fault fine).1] at h
    cases h
    exact fault_ne_notFound (isEmpty_extend hnames) fine rfl

/-- When something above a new directory is missing, there are two names at least. -/
theorem parent?_of_notFound (hbase : env.locate base = .ok (here, .directory children))
    (hnames : ∀ name ∈ names, IsFileName name)
    (hmade : makeDirectory (base.extend names) env = .error .notFound env) :
    ∃ before last name, names = before ++ [last] ++ [name] ∧
      (base.extend names).parent? = some (base.extend (before ++ [last])) := by
  rcases List.eq_nil_or_concat names with rfl | ⟨init, name, rfl⟩
  · rw [show base.extend [] = base from rfl, makeDirectory_of_leads hbase] at hmade
    cases hmade
  · rw [List.concat_eq_append] at hnames hmade ⊢
    have hname := hnames name (List.mem_append_right _ List.mem_cons_self)
    rcases List.eq_nil_or_concat init with rfl | ⟨before, last, rfl⟩
    · exact absurd hmade (makeDirectory_directly (isDirectory_iff.2 ⟨here, children, hbase⟩) hname)
    · rw [List.concat_eq_append] at hnames ⊢
      have hlast := hnames last (by simp)
      exact ⟨before, last, name, rfl, parent?_extend hlast hname⟩

/-- Where the way to a directory is stuck, so is the way to what would be below it, provided that
    something above was missing before. -/
theorem Stuck.below {last : String} (hbase : env.isDirectory base = true)
    (hnames : ∀ other ∈ init ++ [last] ++ [name], IsFileName other)
    (grows : Grows (fun _ _ => False) env after)
    (missing : makeDirectory (base.extend (init ++ [last] ++ [name])) env = .error .notFound env)
    (h : Stuck (base.extend (init ++ [last])) cause after) :
    Stuck (base.extend (init ++ [last] ++ [name])) cause after := by
  have hinit : ∀ other ∈ init ++ [last], IsFileName other :=
    fun other hm => hnames other (List.mem_append_left _ hm)
  have hlast := hinit last (List.mem_append_right _ List.mem_cons_self)
  have hname := hnames name (List.mem_append_right _ List.mem_cons_self)
  -- The path has no fault, for that would have been the answer.
  have fine : pathFault? (base.extend (init ++ [last] ++ [name])) = none := by
    rcases hfault : pathFault? (base.extend (init ++ [last] ++ [name])) with - | fault
    · rfl
    · rw [(makeDirectory_fault hfault).1] at missing
      cases missing
      exact absurd rfl (fault_ne_notFound (isEmpty_extend hnames) hfault)
  have fine' : pathFault? (base.extend (init ++ [last])) = none := by
    rw [Path.extend_concat] at fine
    exact pathFault_of_div (isEmpty_extend hinit) hname.entry.segment fine
  obtain ⟨here, children, hlocate⟩ := isDirectory_iff.1 hbase
  obtain ⟨children', hafter⟩ := grows.locate_directory hlocate
  refine (stuck_iff hafter hnames fine).2 ?_
  -- The walk to what is below goes through the obstacle.
  have step : ∀ {middle : Location} {node : Node},
      after.files.follow here init = .ok (middle, node) →
      after.files.follow here (init ++ [last]) = after.files.follow middle [last] := by
    intro middle node hwalk
    rw [FileTree.follow_append, hwalk]
  cases (stuck_iff hafter hinit fine').1 h with
  | walk there hwalk =>
    refine .walk there ?_
    rw [FileTree.follow_append, hwalk]
  | above hwalk =>
    refine .walk (by decide) ?_
    rw [step hwalk]
    exact FileTree.follow_file (FileTree.look_file_iff.2 (FileTree.get?_of_follow hwalk)) _ _
  | @long middle inner hwalk hlong =>
    refine .walk (by decide) ?_
    have hmiddle : after.files.look middle = some .directory :=
      FileTree.look_directory_iff.2 ⟨inner, FileTree.get?_of_follow hwalk⟩
    rw [step hwalk, FileTree.follow_cons hmiddle, if_neg (by simp [hlast.isName.1]),
      if_neg hlast.isName.2, if_pos hlong]
  | @file middle inner data hwalk short there =>
    -- A file in the way was there before, and then nothing above it was missing.
    have hold : env.look (middle ++ [last]) = some (.file data) :=
      (grows.changed there).resolve_right id
    have hfull : after.files.follow here (init ++ [last]) = .ok (middle ++ [last], .file data) :=
      FileTree.follow_down hwalk hlast.isName short (FileTree.look_file_iff.1 there)
    have up : ".." ∉ init ++ [last] := fun hm => (hinit _ hm).isName.2 rfl
    rw [makeDirectory_extend hlocate hnames fine,
      FileTree.follow_back_file grows.files up hfull hold] at missing
    cases missing

/-- A directory that was created is there. -/
theorem isDirectory_of_makeDirectory (hslash : p.endsWithSlash = false)
    (h : makeDirectory p env = .ok () after) : after.isDirectory p = true := by
  obtain ⟨here, name, slash, hparent, hshort, missing, rfl⟩ := of_makeDirectory_ok h
  obtain rfl : slash = false := (lastName_of_locateParent hparent).slash_eq.trans hslash
  have hhere := look_of_locateParent hparent
  have free : env.look (here ++ [name]) ≠ some .directory := by simp [missing]
  have grows : Grows (fun _ _ => True) env (env.put (here ++ [name]) .directory) :=
    grows_putDirectory hhere missing
  have hlook := look_put .directory hhere free (here ++ [name])
  rw [if_pos rfl] at hlook
  obtain ⟨node, hleads⟩ := leadsTo_put hparent hshort free grows
  obtain ⟨children, hchildren⟩ := FileTree.look_directory_iff.1 hlook
  rw [get?_of_locate hleads] at hchildren
  cases hchildren
  exact isDirectory_iff.2 ⟨_, _, hleads⟩

theorem isDirectory_of_attempt (hslash : p.endsWithSlash = false)
    (h : Attempt p env (.ok () after)) : after.isDirectory p = true := by
  cases h with
  | made h => exact isDirectory_of_makeDirectory hslash h
  | there h => exact h

theorem isDirectory_of_makeDirectoriesUpTo {depth : Nat} (nonempty : p.isEmpty = false)
    (hslash : p.endsWithSlash = false) (h : makeDirectoriesUpTo depth p env = .ok () after) :
    after.isDirectory p = true := by
  cases depth with
  | zero => cases h
  | succ depth =>
    cases h ▸ climb_makeDirectoriesUpTo depth p env with
    | unnamed empty => simp [empty] at nonempty
    | directly _ _ h => exact isDirectory_of_attempt hslash h
    | belowParent _ _ _ _ h => exact isDirectory_of_attempt hslash h

theorem endsWithSlash_extend (hnames : ∀ other ∈ init ++ [name], IsFileName other) :
    (base.extend (init ++ [name])).endsWithSlash = false := by
  rw [Path.extend_concat]
  exact Path.endsWithSlash_div (hnames name (List.mem_append_right _ List.mem_cons_self)).entry

/-- **Creating directories** below one that is there: when it fails, the way is stuck afterwards. -/
theorem makeDirectoriesUpTo_extend (hbase : env.isDirectory base = true)
    (hnames : ∀ name ∈ names, IsFileName name) (depth : Nat) (deep : names.length < depth)
    (h : makeDirectoriesUpTo depth (base.extend names) env = .error cause after) :
    Stuck (base.extend names) cause after := by
  obtain ⟨here, children, hlocate⟩ := isDirectory_iff.1 hbase
  induction depth generalizing names cause after with
  | zero => exact absurd deep (Nat.not_lt_zero _)
  | succ depth ih =>
    cases h ▸ climb_makeDirectoriesUpTo depth (base.extend names) env with
    | directly nonempty found attempt =>
      cases attempt with
      | failed fails noDirectory =>
        exact ⟨nonempty, fails, fun hcause => found (hcause ▸ fails), noDirectory⟩
    | noParent missing top =>
      obtain ⟨before, last, name, rfl, hparent⟩ := parent?_of_notFound hlocate hnames missing
      exact absurd (hparent.symm.trans top) (Option.some_ne_none _)
    | parentFailed missing hup hfailed =>
      obtain ⟨before, last, name, rfl, hparent⟩ := parent?_of_notFound hlocate hnames missing
      obtain rfl := Option.some.inj (hparent.symm.trans hup)
      have hinit : ∀ other ∈ before ++ [last], IsFileName other :=
        fun other hm => hnames other (List.mem_append_left _ hm)
      rw [List.length_append, List.length_singleton] at deep
      exact (ih hinit (Nat.lt_of_succ_lt_succ deep) hfailed).below hbase hnames
        ((keeps_makeDirectoriesUpTo _ depth _).of_error hfailed) missing
    | belowParent nonempty missing hup hmade attempt =>
      obtain ⟨before, last, name, rfl, hparent⟩ := parent?_of_notFound hlocate hnames missing
      obtain rfl := Option.some.inj (hparent.symm.trans hup)
      have hinit : ∀ other ∈ before ++ [last], IsFileName other :=
        fun other hm => hnames other (List.mem_append_left _ hm)
      cases attempt with
      | failed fails noDirectory =>
        refine ⟨nonempty, fails, ?_, noDirectory⟩
        rintro rfl
        have hthere := isDirectory_of_makeDirectoriesUpTo (isEmpty_extend hinit)
          (endsWithSlash_extend hinit) hmade
        rw [Path.extend_concat] at fails
        exact makeDirectory_directly hthere (hnames name (by simp)) fails

end KotlinHarness.Environment
