/-
  How creating directories and writing files changes an environment.

  Such an operation only ever adds: a directory stays one, and a file stays one, though perhaps with
  other octets.  `Grows may` says this of two environments, where `may` tells which files may have
  come to be or changed, and with which data.  It composes, so what every operation does can be put
  together for whole sequences of them:

    * `keeps_makeDirectories`   creating directories changes no file
    * `write_ok`                writing changes the file that the path leads to afterwards
    * `deposit_ok`              the same for texts, which can be read again
    * `deposit_error`           a text that could not be written leaves directories at most

  Paths that led somewhere still lead there (`Grows.leadsTo`), and a file that may not have changed is
  `Grows.kept`.

  What a success did is said once for each operation (`of_makeDirectory_ok`, `of_write_ok`).  Creating a
  directory after those above it goes up one parent at a time: `Climb` has a case for each thing that
  can happen on the way, and what creating a single directory keeps is kept by all of it
  (`keeps_makeDirectoriesUpTo_of_each`).
-/
import KotlinHarness.Files.Deposit
import KotlinHarness.Proofs.Action
import KotlinHarness.Proofs.Files.Walk
import KotlinHarness.Proofs.Segments
import KotlinHarness.Proofs.Text.Utf8

namespace KotlinHarness

namespace Environment

/-- What stands at a location, without what is below it. -/
def look (env : Environment) (location : Location) : Option Leaf := env.files.look location

/-- A path leads to a location at which something stands. -/
def LeadsTo (env : Environment) (p : Path) (location : Location) : Prop :=
  ∃ node, env.locate p = .ok (location, node)

/-- What is different in `new` came about by growth. -/
structure Grows (may : Location → FileData → Prop) (old new : Environment) : Prop where
  workingDirectory : new.workingDirectory = old.workingDirectory
  directories : ∀ {location}, old.look location = some .directory →
    new.look location = some .directory
  files : ∀ {location data}, old.look location = some (.file data) →
    ∃ data, new.look location = some (.file data)
  changed : ∀ {location data}, new.look location = some (.file data) →
    old.look location = some (.file data) ∨ may location data

variable {may : Location → FileData → Prop} {old middle new : Environment} {p : Path}
  {location : Location}

theorem Grows.refl (env : Environment) : Grows may env env :=
  ⟨rfl, id, fun h => ⟨_, h⟩, .inl⟩

theorem Grows.trans (h : Grows may old middle) (h' : Grows may middle new) : Grows may old new := by
  refine ⟨h'.workingDirectory.trans h.workingDirectory, ?_, ?_, ?_⟩
  · intro location hold
    exact h'.directories (h.directories hold)
  · intro location data hold
    obtain ⟨_, hmiddle⟩ := h.files hold
    exact h'.files hmiddle
  · intro location data hnew
    rcases h'.changed hnew with hmiddle | hmay
    · exact h.changed hmiddle
    · exact .inr hmay

theorem grows_composes : Composes (Grows may) := ⟨Grows.refl, Grows.trans⟩

theorem Grows.mono {more : Location → FileData → Prop} (h : Grows may old new)
    (le : ∀ location data, may location data → more location data) : Grows more old new :=
  ⟨h.workingDirectory, h.directories, h.files, fun hnew => (h.changed hnew).imp id (le _ _)⟩

/-! ## Paths -/

theorem LeadsTo.unique {other : Location} (h : old.LeadsTo p location) (h' : old.LeadsTo p other) :
    location = other := by
  obtain ⟨_, h⟩ := h
  obtain ⟨_, h'⟩ := h'
  rw [h] at h'
  cases h'
  rfl

theorem follow_of_locate {env : Environment} {node : Node}
    (h : env.locate p = .ok (location, node)) :
    pathFault? p = none ∧ env.files.follow (env.start p) p.segments = .ok (location, node) := by
  rw [locate] at h
  split at h
  · cases h
  · next fine => exact ⟨fine, h⟩

/-- A path and what stands where it leads to. -/
theorem get?_of_locate {env : Environment} {node : Node} (h : env.locate p = .ok (location, node)) :
    env.files.get? location = some node :=
  FileTree.get?_of_follow (follow_of_locate h).2

theorem locate_file_iff {env : Environment} {data : FileData} :
    env.locate p = .ok (location, .file data) ↔
      env.LeadsTo p location ∧ env.look location = some (.file data) := by
  constructor
  · intro h
    exact ⟨⟨_, h⟩, FileTree.look_file_iff.2 (get?_of_locate h)⟩
  · rintro ⟨⟨node, h⟩, hlook⟩
    have hnode := get?_of_locate h
    rw [FileTree.look_file_iff.1 hlook] at hnode
    cases hnode
    exact h

/-- What was somewhere is still there, be it with other octets. -/
theorem Grows.present (h : Grows may old new) (hold : old.look location ≠ none) :
    new.look location ≠ none := by
  rcases hlook : old.look location with - | (data | _)
  · exact absurd hlook hold
  · obtain ⟨_, hnew⟩ := h.files hlook
    simp [hnew]
  · simp [h.directories hlook]

/-- A file is still there, as it was or with what may have been written. -/
theorem Grows.file (h : Grows may old new) {data : FileData}
    (hold : old.look location = some (.file data)) :
    ∃ data', new.look location = some (.file data') ∧ (data' = data ∨ may location data') := by
  obtain ⟨data', hnew⟩ := h.files hold
  refine ⟨data', hnew, (h.changed hnew).imp_left fun hsame => ?_⟩
  rw [hold] at hsame
  cases hsame
  rfl

/-- A file that may not have changed has not. -/
theorem Grows.kept (h : Grows may old new) {data : FileData}
    (fixed : ∀ data, ¬ may location data) (hold : old.look location = some (.file data)) :
    new.look location = some (.file data) := by
  obtain ⟨data', hnew, rfl | hmay⟩ := h.file hold
  · exact hnew
  · exact absurd hmay (fixed data')

/-- A path still leads where it led. -/
theorem Grows.leadsTo (h : Grows may old new) (hold : old.LeadsTo p location) :
    new.LeadsTo p location := by
  obtain ⟨node, hold⟩ := hold
  rw [locate] at hold
  split at hold
  · cases hold
  · next hfault =>
    obtain ⟨node, hnew⟩ := FileTree.follow_mono h.directories h.present hold
    refine ⟨node, ?_⟩
    rw [locate, hfault]
    simp only
    rw [start, h.workingDirectory]
    exact hnew

theorem Grows.locate_file (h : Grows may old new) {data : FileData}
    (hold : old.locate p = .ok (location, .file data)) :
    ∃ data', new.locate p = .ok (location, .file data') ∧ (data' = data ∨ may location data') := by
  obtain ⟨hleads, hlook⟩ := locate_file_iff.1 hold
  obtain ⟨data', hnew, hdata⟩ := h.file hlook
  exact ⟨data', locate_file_iff.2 ⟨h.leadsTo hleads, hnew⟩, hdata⟩

/-- A path that does not go up, and leads to a file now, led to the file that stood there. -/
theorem Grows.locate_back (h : Grows may old new) {data found : FileData} (up : ".." ∉ p.segments)
    (hnew : new.locate p = .ok (location, .file data))
    (there : old.look location = some (.file found)) :
    old.locate p = .ok (location, .file found) := by
  obtain ⟨fine, hwalk⟩ := follow_of_locate hnew
  rw [locate, fine]
  simp only
  rw [start, ← h.workingDirectory]
  exact FileTree.follow_back_file h.files up hwalk there

/-! ## Single changes -/

theorem look_put {env : Environment} {here : Location} {name : String} (leaf : Leaf)
    (parent : env.look here = some .directory)
    (free : env.look (here ++ [name]) ≠ some .directory) (other : Location) :
    (env.put (here ++ [name]) leaf).look other =
      if other = here ++ [name] then some leaf else env.look other :=
  Forest.look_insert parent free other

theorem grows_putDirectory {env : Environment} {here : Location} {name : String}
    (parent : env.look here = some .directory) (missing : env.look (here ++ [name]) = none) :
    Grows may env (env.put (here ++ [name]) .directory) := by
  have free : env.look (here ++ [name]) ≠ some .directory := by simp [missing]
  have hlook := look_put .directory parent free
  refine ⟨rfl, ?_, ?_, ?_⟩
  · intro other hold
    rw [hlook]
    split
    · rfl
    · exact hold
  · intro other data hold
    have hne : other ≠ here ++ [name] := by
      intro heq
      rw [heq, missing] at hold
      cases hold
    refine ⟨data, ?_⟩
    rw [hlook, if_neg hne]
    exact hold
  · intro other data hnew
    rw [hlook] at hnew
    split at hnew
    · cases hnew
    · exact .inl hnew

/-- What holds a file now did not hold a directory before, and nothing else is different. -/
theorem grows_of_file {data : FileData} (same : new.workingDirectory = old.workingDirectory)
    (hlook : ∀ other, new.look other =
      if other = location then some (.file data) else old.look other)
    (free : old.look location ≠ some .directory) (allowed : may location data) :
    Grows may old new := by
  refine ⟨same, ?_, ?_, ?_⟩
  · intro other hold
    have hne : other ≠ location := by
      rintro rfl
      exact free hold
    rw [hlook, if_neg hne]
    exact hold
  · intro other before hold
    rw [hlook]
    split
    · exact ⟨data, rfl⟩
    · exact ⟨before, hold⟩
  · intro other after hnew
    rw [hlook] at hnew
    split at hnew
    · next heq =>
      cases hnew
      exact .inr (heq ▸ allowed)
    · exact .inl hnew

theorem grows_putFile {env : Environment} {here : Location} {name : String} {data : FileData}
    (parent : env.look here = some .directory)
    (free : env.look (here ++ [name]) ≠ some .directory) (allowed : may (here ++ [name]) data) :
    Grows may env (env.put (here ++ [name]) (.file data)) :=
  grows_of_file rfl (look_put (.file data) parent free) free allowed

/-! ## Directories -/

/-- The last segment of a path is looked for in a directory. -/
theorem look_of_locateParent {env : Environment} {here : Location} {last : LastSegment}
    (h : env.locateParent p = .ok (here, last)) : env.look here = some .directory := by
  rw [locateParent] at h
  split at h
  · cases h
  · simp only at h
    split at h
    · cases h
    · cases h
    · next directory children hfollow =>
      have hlook : env.look directory = some .directory :=
        FileTree.look_directory_iff.2 ⟨children, FileTree.get?_of_follow hfollow⟩
      split at h
      · cases h
        exact hlook
      · split at h
        · cases h
          exact hlook
        · cases h
          exact hlook

/-- A directory that is created is put under a free name. -/
theorem of_makeDirectory_ok {after : Environment} (h : makeDirectory p env = .ok () after) :
    ∃ here name slash, env.locateParent p = .ok (here, .name name slash) ∧
      name.utf8ByteSize ≤ maxNameOctets ∧ env.look (here ++ [name]) = none ∧
      after = env.put (here ++ [name]) .directory := by
  rw [makeDirectory] at h
  split at h
  · cases h
  · cases h
  · next here name slash hparent =>
    split at h
    · cases h
    · next hshort =>
      split at h
      · cases h
      · next hnone =>
        cases h
        exact ⟨here, name, slash, hparent, Nat.le_of_not_lt hshort,
          FileTree.look_eq_none_iff.2 hnone, rfl⟩

theorem makeDirectory_error {cause : IoError} {after : Environment}
    (h : makeDirectory p env = .error cause after) : after = env := by
  rw [makeDirectory] at h
  repeat' split at h
  all_goals cases h
  all_goals rfl

theorem keeps_makeDirectory (may : Location → FileData → Prop) (p : Path) :
    Keeps (Grows may) (makeDirectory p) := by
  intro env
  rcases hmade : makeDirectory p env with ⟨_, after⟩ | ⟨cause, after⟩
  · obtain ⟨here, name, slash, hparent, -, missing, rfl⟩ := of_makeDirectory_ok hmade
    exact grows_putDirectory (look_of_locateParent hparent) missing
  · obtain rfl := makeDirectory_error hmade
    exact .refl _

/-- An attempt to create a directory, to which one that is there already is as good. -/
inductive Attempt (p : Path) (env : Environment) : EStateM.Result IoError Environment Unit → Prop
  | made {after : Environment} (h : makeDirectory p env = .ok () after) : Attempt p env (.ok () after)
  | there (h : env.isDirectory p = true) : Attempt p env (.ok () env)
  | failed {cause : IoError} (h : makeDirectory p env = .error cause env)
      (noDirectory : env.isDirectory p = false) : Attempt p env (.error cause env)

theorem attempt_makeDirectory (p : Path) (env : Environment) :
    Attempt p env
      (match makeDirectory p env with
      | .ok _ env => .ok () env
      | .error cause env => if env.isDirectory p then .ok () env else .error cause env) := by
  rcases hmade : makeDirectory p env with ⟨_, after⟩ | ⟨cause, after⟩
  · exact .made hmade
  · obtain rfl : after = env := makeDirectory_error hmade
    simp only
    split
    · next hthere => exact .there hthere
    · next hno => exact .failed hmade (by simpa using hno)

/-- What creating a directory after those above it comes to, at one step up. -/
inductive Climb (depth : Nat) (p : Path) (env : Environment) :
    EStateM.Result IoError Environment Unit → Prop
  | unnamed (empty : p.isEmpty = true) : Climb depth p env (.ok () env)
  | directly {result} (nonempty : p.isEmpty = false)
      (found : makeDirectory p env ≠ .error .notFound env) (h : Attempt p env result) :
      Climb depth p env result
  | noParent (missing : makeDirectory p env = .error .notFound env) (top : p.parent? = none) :
      Climb depth p env (.error .noAncestor env)
  | parentFailed {parent : Path} {cause : IoError} {above : Environment}
      (missing : makeDirectory p env = .error .notFound env) (up : p.parent? = some parent)
      (h : makeDirectoriesUpTo depth parent env = .error cause above) :
      Climb depth p env (.error cause above)
  | belowParent {parent : Path} {above : Environment} {result} (nonempty : p.isEmpty = false)
      (missing : makeDirectory p env = .error .notFound env) (up : p.parent? = some parent)
      (hparent : makeDirectoriesUpTo depth parent env = .ok () above) (h : Attempt p above result) :
      Climb depth p env result

theorem climb_makeDirectoriesUpTo (depth : Nat) (p : Path) (env : Environment) :
    Climb depth p env (makeDirectoriesUpTo (depth + 1) p env) := by
  have hfirst := attempt_makeDirectory p env
  simp only [makeDirectoriesUpTo]
  split
  · next empty => exact .unnamed empty
  · next nonempty =>
    have nonempty : p.isEmpty = false := by simpa using nonempty
    rcases hmade : makeDirectory p env with ⟨_, first⟩ | ⟨cause, first⟩
    · exact .directly nonempty (by simp [hmade]) (.made hmade)
    · obtain rfl : first = env := makeDirectory_error hmade
      rw [hmade] at hfirst
      simp only
      split
      · next missing =>
        subst missing
        rcases hup : p.parent? with - | parent
        · exact .noParent hmade hup
        · simp only
          rcases hparent : makeDirectoriesUpTo depth parent first with ⟨_, above⟩ | ⟨cause, above⟩
          · exact .belowParent nonempty hmade hup hparent (attempt_makeDirectory p above)
          · exact .parentFailed hmade hup hparent
      · next found => exact .directly nonempty (by simp [hmade, found]) hfirst

/-- What is kept when one directory is created, is kept when those above it are created before. -/
theorem keeps_makeDirectoriesUpTo_of_each {R : Environment → Environment → Prop}
    (composes : Composes R) (among : Path → Prop)
    (up : ∀ {q parent : Path}, among q → q.parent? = some parent → among parent)
    (hmake : ∀ q, among q → Keeps R (makeDirectory q)) (depth : Nat) (hp : among p) :
    Keeps R (makeDirectoriesUpTo depth p) := by
  have attempted : ∀ {q env result}, among q → Attempt q env result → R env (finalState result) := by
    intro q env result hq h
    cases h with
    | made h => exact (hmake q hq).of_ok h
    | there | failed => exact composes.refl env
  induction depth generalizing p with
  | zero => exact composes.refl
  | succ depth ih =>
    intro env
    generalize hresult : makeDirectoriesUpTo (depth + 1) p env = result
    cases hresult ▸ climb_makeDirectoriesUpTo depth p env with
    | unnamed | noParent => exact composes.refl env
    | directly _ _ h => exact attempted hp h
    | parentFailed _ hup h => exact (ih (up hp hup)).of_error h
    | belowParent _ _ hup hparent h =>
      exact composes.trans ((ih (up hp hup)).of_ok hparent) (attempted hp h)

theorem keeps_makeDirectoriesUpTo (may : Location → FileData → Prop) (depth : Nat) (p : Path) :
    Keeps (Grows may) (makeDirectoriesUpTo depth p) :=
  keeps_makeDirectoriesUpTo_of_each grows_composes (fun _ => True) (fun _ _ => trivial)
    (fun q _ => keeps_makeDirectory may q) depth trivial

/-- Creating directories changes no file. -/
theorem keeps_makeDirectories (may : Location → FileData → Prop) (p : Path) :
    Keeps (Grows may) (makeDirectories p) :=
  keeps_makeDirectoriesUpTo may _ p

/-! ## Writing -/

theorem nonempty_of_pathFault (h : pathFault? p = none) : p.isEmpty = false := by
  rw [pathFault?] at h
  split at h
  · cases h
  · split at h
    · cases h
    · next hempty => simpa using hempty

/-- The empty path leads nowhere. -/
theorem LeadsTo.nonempty {env : Environment} (h : env.LeadsTo p location) : p.isEmpty = false := by
  obtain ⟨node, hlocate⟩ := h
  exact nonempty_of_pathFault (follow_of_locate hlocate).1

/-- What is known when the last segment of a path is a name, looked for in the directory `here`. -/
structure LastName (env : Environment) (p : Path) (here : Location) (name : String) (slash : Bool) :
    Prop where
  fine : pathFault? p = none
  walk : ∃ node, env.files.follow (env.start p) (p.segments.filter (! ·.isEmpty)).dropLast =
    .ok (here, node)
  last : (p.segments.filter (! ·.isEmpty)).getLast? = some name
  notHere : name ≠ "."
  notUp : name ≠ ".."
  slash_eq : slash = p.endsWithSlash

theorem lastName_of_locateParent {env : Environment} {here : Location} {name : String} {slash : Bool}
    (h : env.locateParent p = .ok (here, .name name slash)) : LastName env p here name slash := by
  rw [locateParent] at h
  split at h
  · cases h
  · next hfault =>
    simp only at h
    split at h
    · cases h
    · cases h
    · next hfollow =>
      split at h
      · cases h
      · next hlast =>
        split at h
        · cases h
        · next hname =>
          cases h
          simp only [Bool.or_eq_true, decide_eq_true_eq, not_or] at hname
          exact ⟨hfault, ⟨_, hfollow⟩, hlast, hname.1, hname.2, rfl⟩

/-- Where something was put under the last segment of a path, the path leads. -/
theorem leadsTo_of_locateParent {env after : Environment} {here : Location} {name : String}
    (h : env.locateParent p = .ok (here, .name name false))
    (short : name.utf8ByteSize ≤ maxNameOctets) (grows : Grows may env after)
    (there : after.look (here ++ [name]) ≠ none) : after.LeadsTo p (here ++ [name]) := by
  obtain ⟨hfault, ⟨node, hfollow⟩, hlast, hdot, hup, hslash⟩ := lastName_of_locateParent h
  obtain ⟨before, last, hsegments, hnamed⟩ :=
    Path.segments_last (nonempty_of_pathFault hfault) hslash.symm
  -- The last segment is the name, and the segments before it lead to its directory.
  have hfilter : p.segments.filter (! ·.isEmpty) = before.filter (! ·.isEmpty) ++ [last] := by
    rw [hsegments, List.filter_append, List.filter_cons_of_pos (by simpa using hnamed),
      List.filter_nil]
  rw [hfilter, List.getLast?_concat] at hlast
  cases hlast
  rw [hfilter, List.dropLast_concat] at hfollow
  obtain ⟨_, hbefore⟩ := FileTree.follow_mono grows.directories grows.present hfollow
  have hidle : Path.isIdle name = false := by simp [Path.isIdle, hnamed, hdot]
  obtain ⟨found, hfound⟩ := Option.ne_none_iff_exists'.1
    (fun hnone => there (FileTree.look_eq_none_iff.2 hnone) :
      after.files.get? (here ++ [name]) ≠ none)
  have hwalk : after.files.Walk here [name] (here ++ [name]) :=
    .cons (grows.directories (look_of_locateParent h)) (.down ⟨hidle, hup⟩ short there) (.nil there)
  have hstep : after.files.follow here [name] = .ok (here ++ [name], found) :=
    FileTree.follow_eq_ok.2 ⟨hwalk, hfound⟩
  refine ⟨found, ?_⟩
  rw [locate, hfault]
  simp only
  rw [start, grows.workingDirectory, hsegments, FileTree.follow_named, FileTree.follow_append]
  rw [start] at hbefore
  rw [hbefore]
  exact hstep

theorem leadsTo_put {env : Environment} {here : Location} {name : String} {leaf : Leaf}
    (h : env.locateParent p = .ok (here, .name name false))
    (short : name.utf8ByteSize ≤ maxNameOctets) (free : env.look (here ++ [name]) ≠ some .directory)
    (grows : Grows may env (env.put (here ++ [name]) leaf)) :
    (env.put (here ++ [name]) leaf).LeadsTo p (here ++ [name]) :=
  leadsTo_of_locateParent h short grows (by simp [look_put leaf (look_of_locateParent h) free])

theorem overwritten_overwritten (mode : FileMode) :
    mode.overwritten.overwritten = mode.overwritten := by
  cases mode <;> rfl

/-- A file that is written is put under the last segment, with what a write leaves of its mode. -/
theorem of_write_ok {bytes : Bytes} {env after : Environment}
    (h : write p bytes env = .ok () after) :
    ∃ here name mode, env.locateParent p = .ok (here, .name name false) ∧
      name.utf8ByteSize ≤ maxNameOctets ∧ env.look (here ++ [name]) ≠ some .directory ∧
      mode.overwritten = mode ∧ after = env.put (here ++ [name]) (.file ⟨bytes, mode⟩) := by
  rw [write] at h
  split at h
  · cases h
  · cases h
  · next here name slash hparent =>
    split at h
    · cases h
    · next hslash =>
      obtain rfl : slash = false := by simpa using hslash
      split at h
      · cases h
      · next hshort =>
        have hshort := Nat.le_of_not_lt hshort
        split at h
        · cases h
        · next old hget =>
          cases h
          refine ⟨here, name, old.mode.overwritten, hparent, hshort, ?_,
            overwritten_overwritten old.mode, rfl⟩
          simp [look, FileTree.look_file_iff.2 hget]
        · next hget =>
          cases h
          refine ⟨here, name, .plain, hparent, hshort, ?_, rfl, rfl⟩
          simp [look, FileTree.look_eq_none_iff.2 hget]

/-- What a write does that succeeds. -/
structure Written (p : Path) (bytes : Bytes) (old new : Environment) : Prop where
  /-- Only the file that the path leads to afterwards may be another one. -/
  grows : Grows (fun location data => new.LeadsTo p location ∧ data.bytes = bytes) old new
  read : new.read p = .ok bytes

theorem write_error {bytes : Bytes} {env after : Environment} {cause : IoError}
    (h : write p bytes env = .error cause after) : after = env := by
  rw [write] at h
  repeat' split at h
  all_goals cases h
  all_goals rfl

/-- What a write that succeeds puts where. -/
theorem write_put {env after : Environment} {bytes : Bytes} (h : write p bytes env = .ok () after) :
    ∃ location mode, after = env.put location (.file ⟨bytes, mode⟩) ∧
      mode.overwritten = mode ∧ after.locate p = .ok (location, .file ⟨bytes, mode⟩) ∧
      Grows (fun other data => other = location ∧ data.bytes = bytes) env after := by
  obtain ⟨here, name, mode, hparent, hshort, free, hmode, rfl⟩ := of_write_ok h
  have parent := look_of_locateParent hparent
  have grows : Grows (fun other data => other = here ++ [name] ∧ data.bytes = bytes) env
      (env.put (here ++ [name]) (.file ⟨bytes, mode⟩)) := grows_putFile parent free ⟨rfl, rfl⟩
  refine ⟨here ++ [name], mode, rfl, hmode, locate_file_iff.2 ⟨?_, ?_⟩, grows⟩
  · exact leadsTo_put hparent hshort free grows
  · rw [look_put _ parent free, if_pos rfl]

theorem write_ok {bytes : Bytes} {env after : Environment} (h : write p bytes env = .ok () after) :
    Written p bytes env after := by
  obtain ⟨location, mode, -, -, hlocate, grows⟩ := write_put h
  refine ⟨grows.mono ?_, by rw [read, hlocate]⟩
  rintro other data ⟨rfl, hbytes⟩
  exact ⟨⟨_, hlocate⟩, hbytes⟩

/-! ## Texts -/

theorem during_ok {α : Type} {undertaking : Undertaking} {action : FileAction α}
    {env after : Environment} {value : α}
    (h : action.during undertaking env = .ok value after) : action env = .ok value after := by
  rw [FileAction.during] at h
  split at h
  · next heq =>
    cases h
    exact heq
  · cases h

theorem during_error {α : Type} {undertaking : Undertaking} {action : FileAction α}
    {env after : Environment} {cause : Failure}
    (h : action.during undertaking env = .error cause after) :
    ∃ cause, action env = .error cause after := by
  rw [FileAction.during] at h
  split at h
  · cases h
  · next heq =>
    cases h
    exact ⟨_, heq⟩

/-- What the text of a file is, told by its octets. -/
theorem readText_of_read {env : Environment} {content : String}
    (h : env.read p = .ok (Text.encode content)) : env.readText p = .ok content := by
  rw [readText, h]
  simp only [Text.decode?_encode]

/-- What putting a text into a file does that succeeds. -/
structure Deposited (path : Path) (content : String) (old new : Environment) : Prop where
  grows : Grows (fun location data => new.LeadsTo path location ∧ data.bytes = Text.encode content)
    old new
  readText : new.readText path = .ok content

/-- A text is written after directories were created. -/
theorem writeText_eq (path : Path) (content : String) (env : Environment) :
    ∃ directories : EnvironmentAction Unit,
      (∀ may, Keeps (Grows may) directories) ∧
      writeText path content env = (do
        directories
        (write path (Text.encode content)).during (.writing path)) env := by
  rw [writeText]
  rcases path.parent? with - | parent
  · exact ⟨pure (), fun may => grows_composes.keeps_pure (), rfl⟩
  · refine ⟨(makeDirectories parent).during (.creating parent), fun may env => ?_, rfl⟩
    rcases h : (makeDirectories parent).during (.creating parent) env with ⟨_, after⟩ | ⟨_, after⟩
    · exact (keeps_makeDirectories may parent).of_ok (during_ok h)
    · obtain ⟨_, h⟩ := during_error h
      exact (keeps_makeDirectories may parent).of_error h

theorem writeText_ok {path : Path} {content : String} {env after : Environment}
    (h : writeText path content env = .ok () after) : Deposited path content env after := by
  obtain ⟨directories, hkeeps, heq⟩ := writeText_eq path content env
  rw [heq] at h
  obtain ⟨_, middle, hdirectories, hwrite⟩ := of_bind_ok h
  have hwritten := write_ok (during_ok hwrite)
  exact ⟨((hkeeps _).of_ok hdirectories).trans hwritten.grows, readText_of_read hwritten.read⟩

/-- A text that could not be written leaves directories at most. -/
theorem writeText_error {path : Path} {content : String} {env after : Environment} {cause : Failure}
    (h : writeText path content env = .error cause after) :
    Grows (fun _ _ => False) env after := by
  obtain ⟨directories, hkeeps, heq⟩ := writeText_eq path content env
  rw [heq] at h
  rcases of_bind_error h with hdirectories | ⟨_, middle, hdirectories, hlast⟩
  · exact (hkeeps _).of_error hdirectories
  · obtain ⟨_, hwrite⟩ := during_error hlast
    rw [write_error hwrite]
    exact (hkeeps _).of_ok hdirectories

theorem deposit_ok {overwrite : Overwrite} {path : Path} {content : String}
    {env after : Environment} {done : Deposit}
    (h : deposit overwrite path content env = .ok done after) :
    Deposited path content env after := by
  rw [deposit] at h
  split at h
  · next hsame =>
    cases h
    have hholds : env.holds path content = true := (Bool.and_eq_true_iff.1 hsame).2
    refine ⟨.refl env, ?_⟩
    rw [holds] at hholds
    split at hholds
    · next heq => rw [heq, beq_iff_eq.1 hholds]
    · cases hholds
  · obtain ⟨_, last, hwrite, hdone⟩ := of_bind_ok h
    cases hdone
    exact writeText_ok hwrite

theorem deposit_error {overwrite : Overwrite} {path : Path} {content : String}
    {env after : Environment} {cause : Failure}
    (h : deposit overwrite path content env = .error cause after) :
    Grows (fun _ _ => False) env after := by
  rw [deposit] at h
  split at h
  · cases h
  · rcases of_bind_error h with hwrite | ⟨_, last, -, hdone⟩
    · exact writeText_error hwrite
    · cases hdone

/-! ## Files that can be read -/

/-- A path leads to a file that holds a text. -/
def Readable (env : Environment) (p : Path) : Prop := ∃ text, env.readText p = .ok text

theorem readable_iff {env : Environment} :
    env.Readable p ↔ ∃ location data text, env.locate p = .ok (location, .file data) ∧
      Text.decode? data.bytes = some text := by
  constructor
  · rintro ⟨text, h⟩
    rw [readText, read] at h
    rcases hlocate : env.locate p with cause | ⟨location, data | children⟩
    · simp [hlocate] at h
    · simp only [hlocate] at h
      split at h
      · next hdecode => exact ⟨location, data, _, rfl, hdecode⟩
      · cases h
    · simp [hlocate] at h
  · rintro ⟨location, data, text, hlocate, hdecode⟩
    refine ⟨text, ?_⟩
    rw [readText, read, hlocate]
    simp only [hdecode]

/-- When only texts are written, what could be read still can. -/
theorem Grows.readable (h : Grows may old new)
    (texts : ∀ location data, may location data → ∃ content, data.bytes = Text.encode content)
    (hold : old.Readable p) : new.Readable p := by
  obtain ⟨location, data, text, hlocate, hdecode⟩ := readable_iff.1 hold
  obtain ⟨data', hnew, rfl | hmay⟩ := h.locate_file hlocate
  · exact readable_iff.2 ⟨location, data', text, hnew, hdecode⟩
  · obtain ⟨content, hcontent⟩ := texts location data' hmay
    refine readable_iff.2 ⟨location, data', content, hnew, ?_⟩
    rw [hcontent, Text.decode?_encode]

theorem Deposited.readable {content : String} (h : Deposited p content old new) {other : Path}
    (hold : old.Readable other) : new.Readable other :=
  h.grows.readable (fun _ _ hmay => ⟨content, hmay.2⟩) hold

end Environment

end KotlinHarness
