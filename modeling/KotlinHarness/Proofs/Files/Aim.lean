/-
  Where paths aim.

  A tree has no links, so the segments of a path tell where it leads before any file is looked at: an
  idle one stays, `..` goes up, and a name goes down.  This place is the `aim` of the path, seen from
  the working directory.  Whatever a path leads to is there, and what is created under the last
  segment of a path is created there.

  So what file operations create can be bounded without following any path.  `FrameAt` is such a
  bound, for new directories and for files, and it composes:

    * `aim_of_leadsTo`         a path leads to its aim or nowhere
    * `aim_above_join`         where the paths above a relative one aim, read from another one
    * `frames_makeDirectories` new directories are where a path and those above it aim
    * `frames_deposit`         and the file that is written is where its path aims
-/
import KotlinHarness.Proofs.Files.Rewriting

namespace KotlinHarness

/-! ## Aims -/

namespace Path

variable {p q parent : Path} {here origin : Location} {segments first second : List String}

/-- Where segments lead from a location, if nothing is in the way. -/
def aimFrom : Location → List String → Location
  | here, [] => here
  | here, segment :: rest =>
    if isIdle segment then aimFrom here rest
    else if segment = ".." then aimFrom here.dropLast rest
    else aimFrom (here ++ [segment]) rest

/-- Where a path leads from a working directory, if nothing is in the way. -/
def aim (p : Path) (origin : Location) : Location :=
  aimFrom (if p.isAbsolute then [] else origin) p.segments

theorem aimFrom_append (here : Location) (first second : List String) :
    aimFrom here (first ++ second) = aimFrom (aimFrom here first) second := by
  induction first generalizing here with
  | nil => rfl
  | cons segment rest ih =>
    rw [List.cons_append, aimFrom, aimFrom]
    split
    · exact ih here
    · split
      · exact ih here.dropLast
      · exact ih (here ++ [segment])

theorem aimFrom_idle (idle : ∀ segment ∈ segments, isIdle segment = true) :
    aimFrom here segments = here := by
  induction segments with
  | nil => rfl
  | cons segment rest ih =>
    rw [aimFrom, if_pos (idle segment List.mem_cons_self)]
    exact ih fun other hm => idle other (List.mem_cons_of_mem _ hm)

/-- Idle segments can be left out, all or some of them. -/
theorem aimFrom_filter (kept : String → Bool)
    (idle : ∀ segment, kept segment = false → isIdle segment = true) :
    aimFrom here (segments.filter kept) = aimFrom here segments := by
  induction segments generalizing here with
  | nil => rfl
  | cons segment rest ih =>
    rcases hkept : kept segment with - | -
    · rw [List.filter_cons_of_neg (by simp [hkept]), aimFrom, if_pos (idle segment hkept)]
      exact ih
    · rw [List.filter_cons_of_pos hkept, aimFrom, aimFrom]
      split
      · exact ih
      · split
        · exact ih
        · exact ih

/-- The segments that are not idle. -/
def steps (p : Path) : List String := p.segments.filter (! isIdle ·)

/-- Segments that do not go up lead straight down. -/
theorem aimFrom_down (down : ".." ∉ segments) :
    aimFrom here segments = here ++ segments.filter (! isIdle ·) := by
  induction segments generalizing here with
  | nil => exact (List.append_nil here).symm
  | cons segment rest ih =>
    rw [List.mem_cons, not_or] at down
    rw [aimFrom, if_neg (Ne.symm down.1), ih down.2, ih down.2]
    rcases hidle : isIdle segment with - | -
    · rw [List.filter_cons_of_pos (by simp [hidle])]
      simp
    · rw [List.filter_cons_of_neg (by simp [hidle])]
      simp

/-! ## Parents -/

/-- A path whose first segment is not empty is relative. -/
theorem isAbsolute_of_first {first : String} {rest : List String} (h : p.segments = first :: rest)
    (busy : first ≠ "") : p.isAbsolute = false := by
  rw [← Bool.not_eq_true, isAbsolute_iff_segments, h]
  rintro ⟨next, others, heq⟩
  exact busy (List.cons.inj heq).1

theorem nonempty_of_splitLast? {before : List String} {last : String}
    (h : p.splitLast? = some (before, last)) : p.isEmpty = false := by
  rw [← Bool.not_eq_true]
  intro hempty
  have htext : p.text = "" := by rwa [isEmpty, String.isEmpty_iff] at hempty
  have hnil : p.segments = [""] := by
    rw [segments, htext]
    rfl
  rw [splitLast?, hnil] at h
  cases h

theorem idle_of_splitLast? (h : p.splitLast? = none) :
    ∀ segment ∈ p.segments, isIdle segment = true := by
  rw [splitLast?] at h
  split at h
  · next hdrop =>
    exact fun segment hm => List.dropWhile_eq_nil_iff.1 hdrop segment (List.mem_reverse.2 hm)
  · cases h

/-- The parent of a path that may have idle segments at its end. -/
theorem parent?_of_splitLast? {before : List String} {last : String}
    (h : p.splitLast? = some (before, last)) :
    (before = [] ∧ p.parent? = some ⟨""⟩) ∨
      ∃ parent, p.parent? = some parent ∧ ParentOf parent before := by
  obtain ⟨busy, idle, hsegments⟩ := segments_of_splitLast? h
  have hsegment : ∀ segment ∈ before ++ [last], IsSegment segment := by
    intro segment hm
    refine isSegment_of_mem (p := p) ?_
    rw [hsegments, ← List.singleton_append, ← List.append_assoc]
    exact List.mem_append_left idle hm
  -- What follows the last component does not matter for the parent.
  have hcut := segments_ofSegments (by simp) hsegment
  have hsame : (ofSegments (before ++ [last])).parent? = p.parent? := by
    rw [parent?, parent?, splitLast?_of_segments hcut busy, h]
  rw [← hsame]
  exact parent?_of_segments hcut busy

/-- What stands before a component stands before the idle segments at the end. -/
theorem prefix_of_busy {before rest kept idle : List String} {last : String}
    (h : before ++ last :: rest = kept ++ idle) (busy : isIdle last = false)
    (hidle : ∀ segment ∈ idle, isIdle segment = true) : before <+: kept := by
  rcases List.append_eq_append_iff.1 h with ⟨between, hkept, -⟩ | ⟨between, hbefore, hrest⟩
  · exact ⟨between, hkept.symm⟩
  · have hmember : last ∈ idle := hrest ▸ List.mem_append_right _ List.mem_cons_self
    rw [hidle last hmember] at busy
    cases busy

/-- A path keeps of another one some segments that stand before the last component; idle ones may
    follow them. -/
def KeptOf (p q : Path) : Prop :=
  q.isAbsolute = p.isAbsolute ∧
    ∃ kept idle, q.segments = kept ++ idle ∧ (∀ segment ∈ idle, isIdle segment = true) ∧
      ((p.splitLast? = none ∧ kept = []) ∨
        ∃ before last, p.splitLast? = some (before, last) ∧ kept <+: before)

theorem keptOf_parent (h : p.parent? = some parent) : p.KeptOf parent := by
  have hnil : (Path.mk "").segments = [] ++ [""] := rfl
  rcases hlast : p.splitLast? with - | ⟨before, last⟩
  · rw [parent?, hlast] at h
    simp only at h
    split at h
    · next hdot =>
      cases h
      obtain ⟨rest, hsegments⟩ := List.head?_eq_some_iff.1 hdot
      exact ⟨(isAbsolute_of_first hsegments (by decide)).symm, [], [""], hnil, by simp [isIdle],
        .inl ⟨hlast, rfl⟩⟩
    · cases h
  · obtain ⟨busy, idle, hsegments⟩ := segments_of_splitLast? hlast
    rcases parent?_of_splitLast? hlast with ⟨rfl, hempty⟩ | ⟨other, hother, parentOf⟩
    · rw [h] at hempty
      cases hempty
      have hfirst : last ≠ "" := by
        rintro rfl
        cases busy
      exact ⟨(isAbsolute_of_first hsegments hfirst).symm, [], [""], hnil, by simp [isIdle],
        .inr ⟨[], last, hlast, List.nil_prefix⟩⟩
    · rw [h] at hother
      cases hother
      obtain ⟨kept, after, after', hbefore, hparent, -, -, hidle⟩ := parentOf.segments
      refine ⟨?_, kept, after', hparent, hidle, .inr ⟨before, last, hlast, after, hbefore.symm⟩⟩
      obtain ⟨more, hmore⟩ := parentOf.start p (last :: idle) (nonempty_of_splitLast? hlast) hsegments
      have hfirst := isEmpty_eq_false_iff.1 parentOf.nonempty
      rw [isAbsolute, isAbsolute, hmore, String.toList_append, List.head?_append_of_ne_nil _ hfirst]

/-- A path above another one. -/
inductive Above (p : Path) : Path → Prop
  | parent {q : Path} (h : p.parent? = some q) : Above p q
  | next {q r : Path} (h : Above p q) (up : q.parent? = some r) : Above p r

theorem Above.of_parent (h : p.parent? = some parent) (above : Above parent q) : Above p q := by
  induction above with
  | parent up => exact .next (.parent h) up
  | next _ up ih => exact .next ih up

theorem keptOf_above (h : p.Above q) : p.KeptOf q := by
  induction h with
  | parent h => exact keptOf_parent h
  | @next q r h up ih =>
    obtain ⟨hq, kept, idle, hsegments, hidle, hkept⟩ := ih
    obtain ⟨hr, kept', idle', hsegments', hidle', hkept'⟩ := keptOf_parent up
    refine ⟨hr.trans hq, kept', idle', hsegments', hidle', ?_⟩
    -- What is kept of the second path was kept of the first one.
    have hshorter : kept' <+: kept := by
      rcases hkept' with ⟨-, rfl⟩ | ⟨before, last, hlast, hbefore⟩
      · exact List.nil_prefix
      · obtain ⟨busy, rest, hq⟩ := segments_of_splitLast? hlast
        exact hbefore.trans (prefix_of_busy (hsegments.symm.trans hq).symm busy hidle)
    rcases hkept with ⟨hnone, rfl⟩ | ⟨before, last, hlast, hbefore⟩
    · exact .inl ⟨hnone, List.prefix_nil.1 hshorter⟩
    · exact .inr ⟨before, last, hlast, hshorter.trans hbefore⟩

/-! ## Relative paths -/

theorem isAbsolute_join_relative (p : Path) (relative : q.isAbsolute = false) :
    (p.join q).isAbsolute = p.isAbsolute := by
  rw [join, if_neg (by simp [relative])]
  by_cases hempty : p.isEmpty = true
  · have htext : p.text = "" := by rwa [isEmpty, String.isEmpty_iff] at hempty
    rw [if_pos (by simp [hempty]), htext, String.empty_append, isAbsolute, isAbsolute, htext]
    exact relative
  · have hfirst := isEmpty_eq_false_iff.1 (Bool.eq_false_iff.2 hempty)
    split
    · rw [isAbsolute, String.toList_append, List.head?_append_of_ne_nil _ hfirst, isAbsolute]
    · rw [isAbsolute, String.toList_append, String.toList_append, List.append_assoc,
        List.head?_append_of_ne_nil _ hfirst, isAbsolute]

/-- Where the start of a path aims. -/
def OnWay (p : Path) (origin location : Location) : Prop :=
  ∃ kept, kept <+: p.segments ∧
    location = aimFrom (if p.isAbsolute then [] else origin) kept

theorem aim_of_base {base : List String} (h : base = p.segments ∨ base ++ [""] = p.segments)
    (origin : Location) :
    p.aim origin = aimFrom (if p.isAbsolute then [] else origin) base := by
  rw [aim]
  rcases h with rfl | h
  · rfl
  · rw [← h, aimFrom_append]
    rfl

/-- A relative path that does not go up aims below the path from which it is read. -/
theorem aim_join (p : Path) (origin : Location) (relative : q.isAbsolute = false)
    (down : ".." ∉ q.segments) : (p.join q).aim origin = p.aim origin ++ q.steps := by
  obtain ⟨base, hbase, hjoin⟩ := base_join p
  rw [aim, isAbsolute_join_relative p relative, hjoin q relative, aimFrom_append,
    aimFrom_down down, aim_of_base hbase]
  rfl

/-- A name read from a path aims one step below it. -/
theorem aim_div (p : Path) (origin : Location) {name : String} (h : Environment.IsFileName name) :
    (p / name).aim origin = p.aim origin ++ [name] := by
  have hsegments : (Path.mk name).segments = [name] := by
    rw [segments, Text.splitOn_of_not_mem h.entry.segment, List.map_singleton,
      String.ofList_toList]
  have hsteps : (Path.mk name).steps = [name] := by
    rw [steps, hsegments, List.filter_cons_of_pos (by simp [h.isName.1]), List.filter_nil]
  have down : ".." ∉ (Path.mk name).segments := by
    rw [hsegments, List.mem_singleton]
    exact Ne.symm h.isName.2
  rw [← hsteps]
  exact aim_join p origin (isAbsolute_of_first hsegments h.entry.nonempty) down

/-- A path above it aims where a start of that path does, or between the two. -/
theorem aim_above_join (relative : q.isAbsolute = false) (down : ".." ∉ q.segments) {r : Path}
    (h : (p.join q).Above r) :
    p.OnWay origin (r.aim origin) ∨
      ∃ above below, q.steps = above ++ below ∧ below ≠ [] ∧
        r.aim origin = p.aim origin ++ above := by
  obtain ⟨base, hbase, hjoin⟩ := base_join p
  obtain ⟨habsolute, kept, idle, hsegments, hidle, hkept⟩ := keptOf_above h
  have haim : r.aim origin = aimFrom (if p.isAbsolute then [] else origin) kept := by
    rw [aim, habsolute, isAbsolute_join_relative p relative, hsegments, aimFrom_append,
      aimFrom_idle hidle]
  have onWay : kept <+: base → p.OnWay origin (r.aim origin) := by
    intro hshorter
    refine ⟨kept, hshorter.trans ?_, haim⟩
    rcases hbase with rfl | hbase
    · exact List.prefix_rfl
    · exact ⟨[""], hbase⟩
  rcases hlast : q.splitLast? with - | ⟨front, name⟩
  · -- The relative path is idle, so all that is kept is of the other one.
    have idles := idle_of_splitLast? hlast
    rcases hkept with ⟨-, rfl⟩ | ⟨before, last, hsplit, hshorter⟩
    · exact .inl (onWay List.nil_prefix)
    · obtain ⟨busy, rest, hwhole⟩ := segments_of_splitLast? hsplit
      exact .inl (onWay (hshorter.trans
        (prefix_of_busy (hwhole.symm.trans (hjoin q relative)) busy idles)))
  · have hwhole := splitLast?_append (hjoin q relative) hlast
    rcases hkept with ⟨hnone, -⟩ | ⟨before, last, hsplit, rest, hrest⟩
    · rw [hwhole] at hnone
      cases hnone
    · rw [hwhole] at hsplit
      cases hsplit
      obtain ⟨busy, after, hq⟩ := segments_of_splitLast? hlast
      rcases List.append_eq_append_iff.1 hrest with ⟨between, hbetween, -⟩ | ⟨between, hbetween, hfront⟩
      · exact .inl (onWay ⟨between, hbetween.symm⟩)
      · refine .inr ⟨between.filter (! isIdle ·), (rest ++ name :: after).filter (! isIdle ·), ?_, ?_, ?_⟩
        · rw [steps, hq, hfront, List.append_assoc, List.filter_append]
        · intro hnil
          have hmember : name ∈ (rest ++ name :: after).filter (! isIdle ·) :=
            List.mem_filter.2 ⟨by simp, by simp [busy]⟩
          rw [hnil] at hmember
          cases hmember
        · have hdown : ".." ∉ between := fun hm => down (by simp [hq, hfront, hm])
          rw [haim, hbetween, aimFrom_append, aimFrom_down hdown, aim_of_base hbase]

end Path

/-! ## Walks -/

/-- A walk ends where its segments aim. -/
theorem FileTree.aim_of_follow {tree : FileTree} {here location : Location} {segments : List String}
    {node : Node} (h : tree.follow here segments = .ok (location, node)) :
    location = Path.aimFrom here segments := by
  have walk := walk_of_follow h
  clear h
  induction walk with
  | nil => rfl
  | cons _ step _ ih =>
    rw [Path.aimFrom, ih]
    cases step with
    | stay idle => rw [if_pos idle]
    | up busy dots => rw [if_neg (by simp [busy]), if_pos dots]
    | down isName => rw [if_neg (by simp [isName.1]), if_neg isName.2]

namespace Environment

variable {env : Environment} {p : Path} {here location origin : Location} {name : String}
  {slash : Bool}

theorem start_eq (env : Environment) (p : Path) :
    env.start p = if p.isAbsolute then [] else env.workingDirectory := rfl

/-- A path leads to its aim or nowhere. -/
theorem aim_of_leadsTo (h : env.LeadsTo p location) : location = p.aim env.workingDirectory := by
  obtain ⟨node, h⟩ := h
  rw [locate] at h
  split at h
  · cases h
  · rw [Path.aim, ← start_eq]
    exact FileTree.aim_of_follow h

/-- The last segment of a path, when it is a name, is looked for where the path aims. -/
theorem aim_of_locateParent (h : env.locateParent p = .ok (here, .name name slash)) :
    here ++ [name] = p.aim env.workingDirectory := by
  obtain ⟨-, ⟨node, hfollow⟩, hlast, hdot, hup, -⟩ := lastName_of_locateParent h
  have hmember : name ∈ p.segments.filter (! ·.isEmpty) := List.mem_of_getLast? hlast
  have hempty : name ≠ "" := by
    have hkept := (List.mem_filter.1 hmember).2
    rintro rfl
    cases hkept
  have hbusy : ¬ Path.isIdle name = true := by simp [Path.isIdle, hempty, hdot]
  rw [Path.aim, ← start_eq, ← Path.aimFrom_filter (! ·.isEmpty)
      (fun segment hempty => by simp_all [Path.isIdle]),
    ← List.dropLast_append_getLast? name hlast, Path.aimFrom_append,
    ← FileTree.aim_of_follow hfollow, Path.aimFrom, if_neg hbusy, if_neg hup]
  rfl

/-! ## Frames -/

/-- In the working directory `origin`, files change as they may, and new directories are at the places
    `found`. -/
def FrameAt (origin : Location) (may : Location → FileData → Prop) (found : Location → Prop)
    (old new : Environment) : Prop :=
  old.workingDirectory = origin → Grows may old new ∧
    ∀ location, new.look location = some .directory →
      old.look location = some .directory ∨ found location

variable {may : Location → FileData → Prop} {found : Location → Prop}

theorem frameAt_composes : Composes (FrameAt origin may found) where
  refl env _ := ⟨.refl env, fun _ => .inl⟩
  trans h h' hold := by
    obtain ⟨hgrows, hfound⟩ := h hold
    obtain ⟨hgrows', hfound'⟩ := h' (hgrows.workingDirectory.trans hold)
    refine ⟨hgrows.trans hgrows', fun location hnew => ?_⟩
    exact (hfound' location hnew).elim (hfound location) .inr

theorem frames_makeDirectory (h : found (p.aim origin)) :
    Keeps (FrameAt origin may found) (makeDirectory p) := by
  intro env
  rcases hmade : makeDirectory p env with ⟨⟨⟩, after⟩ | ⟨cause, after⟩
  · intro hold
    refine ⟨(keeps_makeDirectory may p).of_ok hmade, fun location hnew => ?_⟩
    obtain ⟨here, name, slash, hparent, -, missing, rfl⟩ := of_makeDirectory_ok hmade
    rw [finalState, look_put .directory (look_of_locateParent hparent) (by simp [missing])] at hnew
    split at hnew
    · next heq =>
      rw [heq, aim_of_locateParent hparent, hold]
      exact .inr h
    · exact .inl hnew
  · rw [makeDirectory_error hmade]
    exact frameAt_composes.refl env

/-- The path and those above it are where directories may be new. -/
theorem frames_makeDirectoriesUpTo (h : found (p.aim origin))
    (above : ∀ q, p.Above q → found (q.aim origin)) (depth : Nat) :
    Keeps (FrameAt origin may found) (makeDirectoriesUpTo depth p) := by
  refine keeps_makeDirectoriesUpTo_of_each frameAt_composes (fun q => q = p ∨ p.Above q) ?_ ?_ depth
    (.inl rfl)
  · rintro q parent (rfl | hq) hup
    · exact .inr (.parent hup)
    · exact .inr (.next hq hup)
  · rintro q (rfl | hq)
    · exact frames_makeDirectory h
    · exact frames_makeDirectory (above q hq)

/-- Directories that are created for a path are where it and the paths above it aim. -/
theorem frames_makeDirectories (h : found (p.aim origin))
    (above : ∀ q, p.Above q → found (q.aim origin)) :
    Keeps (FrameAt origin may found) (makeDirectories p) :=
  frames_makeDirectoriesUpTo h above _

/-- A write creates no directory. -/
theorem directory_of_write {after : Environment} {bytes : Bytes}
    (h : write p bytes env = .ok () after) (hnew : after.look location = some .directory) :
    env.look location = some .directory := by
  obtain ⟨here, name, mode, hparent, -, free, -, rfl⟩ := of_write_ok h
  rw [look_put _ (look_of_locateParent hparent) free] at hnew
  split at hnew
  · cases hnew
  · exact hnew

/-- A write changes the file at which its path aims. -/
theorem frames_write {bytes : Bytes}
    (h : ∀ data : FileData, data.bytes = bytes → may (p.aim origin) data) :
    Keeps (FrameAt origin may found) (write p bytes) := by
  intro env
  rcases hwrite : write p bytes env with ⟨⟨⟩, after⟩ | ⟨cause, after⟩
  · intro hold
    have hgrows := (write_ok hwrite).grows
    refine ⟨hgrows.mono ?_, fun location hnew => .inl (directory_of_write hwrite hnew)⟩
    rintro location data ⟨hleads, hbytes⟩
    rw [aim_of_leadsTo hleads, hgrows.workingDirectory, hold]
    exact h data hbytes
  · rw [write_error hwrite]
    exact frameAt_composes.refl env

theorem frames_during {α : Type} {action : FileAction α} (h : Keeps (FrameAt origin may found) action)
    (undertaking : Undertaking) : Keeps (FrameAt origin may found) (action.during undertaking) := by
  intro env
  have hstate := h env
  rw [FileAction.during]
  rcases haction : action env with ⟨value, after⟩ | ⟨cause, after⟩ <;> rwa [haction] at hstate

/-- A text is put where its path aims, and new directories are where those above it aim. -/
theorem frames_deposit {overwrite : Overwrite} {content : String}
    (h : ∀ data : FileData, data.bytes = Text.encode content → may (p.aim origin) data)
    (above : ∀ q, p.Above q → found (q.aim origin)) :
    Keeps (FrameAt origin may found) (deposit overwrite p content) := by
  have composes : Composes (FrameAt origin may found) := frameAt_composes
  have hwrite : Keeps (FrameAt origin may found) (writeText p content) := by
    have hlast : Keeps (FrameAt origin may found) _ :=
      frames_during (frames_write h) (.writing p)
    rw [writeText]
    rcases hup : p.parent? with - | parent
    · exact hlast
    · have hparent : Keeps (FrameAt origin may found) _ :=
        frames_during (frames_makeDirectories (above parent (.parent hup)) fun q hq =>
          above q (.of_parent hup hq)) (.creating parent)
      exact composes.keeps_bind hparent fun _ => hlast
  intro env
  rw [deposit]
  split
  · exact composes.refl env
  · exact composes.keeps_bind hwrite (fun _ => composes.keeps_pure _) env

end Environment

end KotlinHarness
