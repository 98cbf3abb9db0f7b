/-
  Doing something a second time, over what the first time left.

  Let a call have started with some files and ended with `final`, and let a second call start there.
  Step by step the second call is where the first one was before, `old`, but with the files of
  `final` around, `new`.  It has all directories and files of `final` and no others, and every file
  holds what it held in the first call by then, or what it held in the end (`Retraces`).

  What the first call created without failing the second one finds, so no step of it creates
  anything: it writes again what was written (`Retraces.deposit`, `Retraces.write`), and below a
  directory it fails where the first one failed (`deposit_below`).  A path at which both calls find
  the same octets is `Settled`: everything that was written by both is, and whatever is settled stays
  so.

  An action `Repeats` when the second call ends it as the first one did, be it with a failure.
-/
import Mathlib.Data.List.Induction
import KotlinHarness.Proofs.Files.Digging

namespace KotlinHarness.Environment

variable {may : Location → FileData → Prop} {final old new old' new' : Environment}
  {base p : Path} {location : Location} {init : List String} {name content : String} {bytes : Bytes}

/-! ## The second call beside the first -/

/-- Where the second call stands, over what the first one left in `final`. -/
structure Retraces (final old new : Environment) : Prop where
  below : Grows (fun _ _ => True) old final
  onto : Grows (fun _ _ => True) final new
  into : Grows (fun _ _ => True) new final
  bytes : ∀ {location data}, new.look location = some (.file data) →
    (∃ last, final.look location = some (.file last) ∧ last.bytes = data.bytes) ∨
      ∃ first, old.look location = some (.file first) ∧ first.bytes = data.bytes

/-- Both calls have the same octets in a file. -/
def Agreed (old new : Environment) (location : Location) : Prop :=
  ∀ data data', old.look location = some (.file data) → new.look location = some (.file data') →
    data'.bytes = data.bytes

/-- Both calls find the same at a path. -/
def Settled (old new : Environment) (p : Path) : Prop :=
  ∃ location, old.LeadsTo p location ∧ Agreed old new location

/-- A step of both calls: they are beside each other afterwards, and what was settled is. -/
structure Moves (final old new old' new' : Environment) : Prop where
  grows : Grows (fun _ _ => True) old old'
  retraces : Retraces final old' new'
  settled : ∀ p, Settled old new p → Settled old' new' p

theorem Moves.refl (h : Retraces final old new) : Moves final old new old new :=
  ⟨.refl old, h, fun _ => id⟩

theorem Moves.trans {last last' : Environment} (h : Moves final old new old' new')
    (h' : Moves final old' new' last last') : Moves final old new last last' :=
  ⟨h.grows.trans h'.grows, h'.retraces, fun p settled => h'.settled p (h.settled p settled)⟩

/-- The second call starts where the first one ended. -/
theorem retraces_start (h : Grows (fun _ _ => True) old final) : Retraces final old final :=
  ⟨h, .refl final, .refl final, fun hlook => .inl ⟨_, hlook, rfl⟩⟩

theorem Retraces.grows (h : Retraces final old new) : Grows (fun _ _ => True) old new :=
  h.below.trans h.onto

theorem Retraces.file_iff (h : Retraces final old new) :
    (∃ data, new.look location = some (.file data)) ↔
      ∃ data, final.look location = some (.file data) :=
  ⟨fun ⟨_, hdata⟩ => h.into.files hdata, fun ⟨_, hdata⟩ => h.onto.files hdata⟩

/-- What is settled reads the same, whether or not it is text. -/
theorem Retraces.readText_eq (h : Retraces final old new) (settled : Settled old new p) :
    new.readText p = old.readText p := by
  obtain ⟨location, hleads, agreed⟩ := settled
  have hleads' := h.grows.leadsTo hleads
  rw [readText, readText, read, read]
  obtain ⟨data | children, hold⟩ := hleads
  · have hlook := (locate_file_iff.1 hold).2
    obtain ⟨data', hnew⟩ := h.grows.files hlook
    rw [hold, locate_file_iff.2 ⟨hleads', hnew⟩]
    simp only [agreed data data' hlook hnew]
  · obtain ⟨children', hnew⟩ := h.grows.locate_directory hold
    rw [hold, hnew]

/-- What the first call does not change any more is settled. -/
theorem Retraces.agreed (h : Retraces final old new) (grows : Grows may old final)
    (kept : ∀ data, ¬ may location data) : Agreed old new location := by
  intro data data' hold hnew
  rcases h.bytes hnew with ⟨last, hlast, hbytes⟩ | ⟨first, hfirst, hbytes⟩
  · rcases grows.changed hlast with hsame | hmay
    · rw [hold] at hsame
      cases hsame
      exact hbytes.symm
    · exact absurd hmay (kept last)
  · rw [hold] at hfirst
    cases hfirst
    exact hbytes.symm

/-! ## Steps -/

/-- Creating directories in the first call does nothing in the second. -/
theorem Retraces.directories (h : Retraces final old new)
    (grows : Grows (fun _ _ => False) old old') (below : Grows (fun _ _ => True) old' final) :
    Moves final old new old' new := by
  refine ⟨grows.mono fun _ _ hmay => hmay.elim,
    ⟨below, h.onto, h.into, fun hnew => (h.bytes hnew).imp id ?_⟩, ?_⟩
  · rintro ⟨first, hfirst, hbytes⟩
    exact ⟨first, grows.kept (fun _ => id) hfirst, hbytes⟩
  · rintro p ⟨location, hleads, agreed⟩
    refine ⟨location, grows.leadsTo hleads, fun data data' hold hnew => ?_⟩
    exact agreed data data' ((grows.changed hold).resolve_right id) hnew

/-- A file that was written in the first call is written in the second, or holds that already. -/
theorem Retraces.rewrite {written present : FileData} (h : Retraces final old new)
    (grows : Grows (fun other _ => other = location) old old')
    (below : Grows (fun _ _ => True) old' final)
    (hwritten : old'.look location = some (.file written))
    (hpresent : new.look location = some (.file present))
    (hnew' : (new' = new ∧ present.bytes = written.bytes) ∨
      ∃ mode, new' = new.put location (.file ⟨written.bytes, mode⟩)) :
    Moves final old new old' new' ∧ Agreed old' new' location := by
  -- Afterwards the file holds the same in both calls, and nothing else was touched.
  obtain ⟨same, mode, hlook⟩ : new'.workingDirectory = new.workingDirectory ∧
      ∃ mode, ∀ other, new'.look other =
        if other = location then some (.file ⟨written.bytes, mode⟩) else new.look other := by
    rcases hnew' with ⟨rfl, hbytes⟩ | ⟨mode, rfl⟩
    · refine ⟨rfl, present.mode, fun other => ?_⟩
      split
      · next heq => rw [heq, hpresent, ← hbytes]
      · rfl
    · exact ⟨rfl, mode, look_put_file hpresent ⟨written.bytes, mode⟩⟩
  have hthere : new'.look location = some (.file ⟨written.bytes, mode⟩) := by
    rw [hlook, if_pos rfl]
  have hothers : ∀ other, other ≠ location → new'.look other = new.look other :=
    fun other hne => by rw [hlook, if_neg hne]
  have onto : Grows (fun _ _ => True) new new' :=
    grows_of_file same hlook (by simp [hpresent]) trivial
  have back : ∀ other, new.look other =
      if other = location then some (.file present) else new'.look other := by
    intro other
    split
    · next heq => rw [heq, hpresent]
    · next hne => rw [hothers other hne]
  have into : Grows (fun _ _ => True) new' new :=
    grows_of_file same.symm back (by simp [hthere]) trivial
  have agreed : Agreed old' new' location := by
    intro data data' hold hnew
    rw [hwritten] at hold
    rw [hthere] at hnew
    cases hold
    cases hnew
    rfl
  refine ⟨⟨grows.mono fun _ _ _ => trivial,
    ⟨below, h.onto.trans onto, into.trans h.into, ?_⟩, ?_⟩, agreed⟩
  · intro other data hnew
    by_cases heq : other = location
    · subst heq
      rw [hthere] at hnew
      cases hnew
      exact .inr ⟨written, hwritten, rfl⟩
    · rw [hothers other heq] at hnew
      refine (h.bytes hnew).imp id ?_
      rintro ⟨first, hfirst, hbytes⟩
      exact ⟨first, grows.kept (fun _ => heq) hfirst, hbytes⟩
  · rintro p ⟨place, hleads, hagreed⟩
    refine ⟨place, grows.leadsTo hleads, ?_⟩
    by_cases heq : place = location
    · exact heq ▸ agreed
    · intro data data' hold hnew
      rw [hothers place heq] at hnew
      exact hagreed data data' ((grows.changed hold).resolve_right heq) hnew

/-- A text that was put into a file is put there again. -/
theorem Retraces.deposit {overwrite : Overwrite} {done : Deposit} (h : Retraces final old new)
    (hold : Environment.deposit overwrite p content old = .ok done old')
    (below : Grows (fun _ _ => True) old' final) :
    ∃ done' new', Environment.deposit overwrite p content new = .ok done' new' ∧
      Moves final old new old' new' ∧ Settled old' new' p := by
  obtain ⟨location, written, hlocate, hbytes, hgrows, -⟩ := deposit_file hold
  obtain ⟨hleads, hwritten⟩ := locate_file_iff.1 hlocate
  have all := below.trans h.onto
  obtain ⟨present, hpresent⟩ := all.files hwritten
  have hnew := locate_file_iff.2 ⟨all.leadsTo hleads, hpresent⟩
  rw [deposit_at_file hnew]
  split
  · next hsame =>
    obtain ⟨hmoves, hagreed⟩ := h.rewrite hgrows below hwritten hpresent
      (.inl ⟨rfl, hsame.2.trans hbytes.symm⟩)
    exact ⟨_, _, rfl, hmoves, location, hleads, hagreed⟩
  · obtain ⟨hmoves, hagreed⟩ := h.rewrite hgrows below hwritten hpresent
      (.inr ⟨present.mode.overwritten, rfl⟩)
    rw [hbytes] at hmoves hagreed
    exact ⟨_, _, rfl, hmoves, location, hleads, hagreed⟩

/-- Octets that were written are written again. -/
theorem Retraces.write (h : Retraces final old new)
    (hold : Environment.write p bytes old = .ok () old')
    (below : Grows (fun _ _ => True) old' final) :
    ∃ new', Environment.write p bytes new = .ok () new' ∧ Moves final old new old' new' := by
  obtain ⟨location, mode, -, -, hlocate, hgrows⟩ := write_put hold
  obtain ⟨hleads, hwritten⟩ := locate_file_iff.1 hlocate
  have hgrows : Grows (fun other _ => other = location) old old' := hgrows.mono fun _ _ => And.left
  have all := below.trans h.onto
  obtain ⟨present, hpresent⟩ := all.files hwritten
  rw [write_at_file (locate_file_iff.2 ⟨all.leadsTo hleads, hpresent⟩)]
  exact ⟨_, rfl, (h.rewrite hgrows below hwritten hpresent
    (.inr ⟨present.mode.overwritten, rfl⟩)).1⟩

/-! ## Writing below a directory -/

/-- The directories above a path are created before it is written. -/
def makeAbove (p : Path) : FileAction Unit :=
  match p.parent? with
  | some parent => makeDirectories parent
  | none => pure ()

theorem depth_extend (names : List String) (hnames : ∀ name ∈ names, IsFileName name) :
    names.length < (base.extend names).components.length + 1 := by
  have hbody : ∀ {p : Path}, (p.segments.filterMap Component.ofSegment?).length ≤ p.components.length := by
    intro p
    rw [Path.components]
    split
    · simp
    · split <;> simp
  refine Nat.lt_succ_of_le (Nat.le_trans ?_ hbody)
  induction names using List.reverseRecOn with
  | nil => exact Nat.zero_le _
  | append_singleton before last ih =>
    have hlast := hnames last (List.mem_append_right _ List.mem_cons_self)
    have hcomponent : Component.ofSegment? last = some (.normal last) := by
      have hidle := hlast.isName.1
      rw [Path.isIdle, Bool.or_eq_false_iff] at hidle
      simp only [decide_eq_false_iff_not] at hidle
      rw [Component.ofSegment?, if_neg (by simp [hidle]), if_neg hlast.isName.2]
    obtain ⟨front, hfront, hsame⟩ := Path.segments_div (p := base.extend before) hlast.entry.segment
    have hlength : ((base.extend before).segments.filterMap Component.ofSegment?).length ≤
        (front.filterMap Component.ofSegment?).length := by
      rcases hsame with rfl | hsame
      · exact Nat.le_refl _
      · rw [← hsame, List.filterMap_append]
        simp [Component.ofSegment?]
    rw [Path.extend_concat, hfront, List.filterMap_append, List.length_append, List.length_append]
    have hbefore := ih fun other hm => hnames other (List.mem_append_left _ hm)
    simp only [List.filterMap_cons, hcomponent, List.filterMap_nil, List.length_singleton]
    omega

/-- What creating the directories above a path below `base` does, and what it does over that. -/
structure MakesAbove (base : Path) (init : List String) (action : FileAction Unit)
    (old : Environment) : Prop where
  grows : Grows (fun _ _ => False) old (finalState (action old))
  made : ∀ {middle new}, action old = .ok () middle → Grows (fun _ _ => True) middle new →
    middle.isDirectory (base.extend init) = true ∧ action new = .ok () new
  stuck : ∀ {cause middle new}, action old = .error cause middle →
    Grows (fun _ _ => True) middle new → action new = .error cause new

theorem makeAbove_below (hbase : old.isDirectory base = true)
    (hnames : ∀ other ∈ init ++ [name], IsFileName other) :
    MakesAbove base init (makeAbove (base.extend (init ++ [name]))) old := by
  have hname := hnames name (List.mem_append_right _ List.mem_cons_self)
  rcases List.eq_nil_or_concat init with rfl | ⟨before, last, rfl⟩
  · -- The directory itself is above, or nothing has to be.
    obtain ⟨parent, hparent, hthere⟩ := parent_of_div hbase hname
    have haction : makeAbove (base.extend ([] ++ [name])) = makeDirectories parent := by
      rw [makeAbove, Path.extend_concat base [] name, show base.extend [] = base from rfl, hparent]
    have hidle : ∀ {new : Environment}, Grows (fun _ _ => True) old new →
        makeDirectories parent new = .ok () new := fun grows =>
      hthere.elim makeDirectories_of_isEmpty
        fun h => makeDirectories_of_isDirectory (grows.isDirectory h)
    rw [haction]
    have hold := hidle (.refl old)
    constructor
    · rw [hold]
      exact .refl old
    · intro middle new hmade grows
      rw [hold] at hmade
      cases hmade
      exact ⟨hbase, hidle grows⟩
    · intro cause middle new hfailed
      rw [hold] at hfailed
      cases hfailed
  · rw [List.concat_eq_append] at hnames ⊢
    have hinit : ∀ other ∈ before ++ [last], IsFileName other :=
      fun other hm => hnames other (List.mem_append_left _ hm)
    have hlast := hinit last (List.mem_append_right _ List.mem_cons_self)
    have haction : makeAbove (base.extend (before ++ [last] ++ [name])) =
        makeDirectories (base.extend (before ++ [last])) := by
      rw [makeAbove, parent?_extend hlast hname]
    have hgrows := keeps_makeDirectories (fun _ _ => False) (base.extend (before ++ [last])) old
    rw [haction]
    refine ⟨hgrows, ?_, ?_⟩
    · intro middle new hmade grows
      have hthere := isDirectory_of_makeDirectoriesUpTo (isEmpty_extend hinit)
        (endsWithSlash_extend hinit) hmade
      exact ⟨hthere, makeDirectories_of_isDirectory (grows.isDirectory hthere)⟩
    · intro cause middle new hfailed grows
      rw [hfailed] at hgrows
      have hstuck := makeDirectoriesUpTo_extend hbase hinit _ (depth_extend _ hinit) hfailed
      exact (hstuck.mono (hgrows.isDirectory hbase) hinit grows).makeDirectories

/-- Writing below a directory, read off the walk to where the file goes. -/
theorem write_extend {env : Environment} {here : Location} {children : Forest}
    (hbase : env.locate base = .ok (here, .directory children))
    (hnames : ∀ other ∈ init ++ [name], IsFileName other)
    (fine : pathFault? (base.extend (init ++ [name])) = none) :
    Environment.write (base.extend (init ++ [name])) bytes env =
      match env.files.follow here init with
      | .error cause => .error cause env
      | .ok (_, .file _) => .error .notADirectory env
      | .ok (middle, .directory _) =>
        if maxNameOctets < name.utf8ByteSize then .error .nameTooLong env
        else
          match env.look (middle ++ [name]) with
          | some .directory => .error .isADirectory env
          | some (.file data) =>
            .ok () (env.put (middle ++ [name]) (.file ⟨bytes, data.mode.overwritten⟩))
          | none => .ok () (env.put (middle ++ [name]) (.file ⟨bytes, .plain⟩)) := by
  rw [Environment.write, locateParent_extend hbase hnames fine]
  rcases env.files.follow here init with cause | ⟨middle, data | inner⟩
  · rfl
  · rfl
  · simp only [Bool.false_eq_true, if_false]
    split
    · rfl
    · rw [look, FileTree.look_eq]
      rcases env.files.get? (middle ++ [name]) with - | (data | inner) <;> rfl

/-- A write that fails, and not for want of a directory, fails in a larger environment. -/
theorem write_error_mono {cause : IoError} (grows : Grows may old new)
    (hbase : old.isDirectory base = true) (hnames : ∀ other ∈ init ++ [name], IsFileName other)
    (there : cause ≠ .notFound)
    (h : Environment.write (base.extend (init ++ [name])) bytes old = .error cause old') :
    Environment.write (base.extend (init ++ [name])) bytes new = .error cause new := by
  obtain ⟨here, children, hlocate⟩ := isDirectory_iff.1 hbase
  obtain ⟨children', hlocate'⟩ := grows.locate_directory hlocate
  rcases fine : pathFault? (base.extend (init ++ [name])) with - | fault
  · rw [write_extend hlocate hnames fine] at h
    rw [write_extend hlocate' hnames fine]
    rcases hwalk : old.files.follow here init with found | ⟨middle, data | inner⟩
    · simp only [hwalk, EStateM.Result.error.injEq] at h
      obtain ⟨rfl, -⟩ := h
      rw [FileTree.follow_error_mono grows.directories grows.files there hwalk]
    · simp only [hwalk, EStateM.Result.error.injEq] at h
      obtain ⟨rfl, -⟩ := h
      obtain ⟨_, hnew⟩ := grows.follow_file hwalk
      rw [hnew]
    · simp only [hwalk] at h
      obtain ⟨_, hnew⟩ := grows.follow_directory hwalk
      rw [hnew]
      simp only
      split at h
      · next hlong =>
        cases h
        exact if_pos hlong
      · next hshort =>
        rw [if_neg hshort]
        split at h
        · next hlook =>
          cases h
          rw [grows.directories hlook]
        · cases h
        · cases h
  · have hfault : ∀ env : Environment,
        Environment.write (base.extend (init ++ [name])) bytes env = .error fault env := by
      intro env
      rw [Environment.write, locateParent, fine]
    rw [hfault] at h
    cases h
    exact hfault new

/-- Below a directory that is there, nothing is missing. -/
theorem write_directly {cause : IoError} (hthere : old.isDirectory (base.extend init) = true)
    (hname : IsFileName name)
    (h : Environment.write (base.extend (init ++ [name])) bytes old = .error cause old') :
    cause ≠ .notFound := by
  rw [Path.extend_concat] at h
  have hpath : base.extend init / name = (base.extend init).extend ([] ++ [name]) :=
    (Path.extend_concat (base.extend init) [] name).symm
  have hnames : ∀ other ∈ [] ++ [name], IsFileName other :=
    fun other hm => by rwa [List.mem_singleton.1 hm]
  obtain ⟨here, children, hlocate⟩ := isDirectory_iff.1 hthere
  rw [hpath] at h
  rcases fine : pathFault? ((base.extend init).extend ([] ++ [name])) with - | fault
  · rw [write_extend hlocate hnames fine, FileTree.follow_nil, get?_of_locate hlocate] at h
    simp only at h
    split at h
    · cases h
      decide
    · split at h
      · cases h
        decide
      · cases h
      · cases h
  · rw [Environment.write, locateParent, fine] at h
    cases h
    exact fault_ne_notFound (isEmpty_extend hnames) fine

/-! ## Texts below a directory -/

theorem during_eq {α : Type} (undertaking : Undertaking) (action : FileAction α)
    (env : Environment) :
    action.during undertaking env =
      match action env with
      | .ok value after => .ok value after
      | .error cause after => .error (.during undertaking (.io cause)) after := rfl

/-- What was being done when a text was put below a directory. -/
theorem parent?_below (hbase : old.isDirectory base = true)
    (hnames : ∀ other ∈ init ++ [name], IsFileName other) :
    ∃ parent, (base.extend (init ++ [name])).parent? = some parent := by
  have hname := hnames name (List.mem_append_right _ List.mem_cons_self)
  rcases List.eq_nil_or_concat init with rfl | ⟨before, last, rfl⟩
  · obtain ⟨parent, hparent, -⟩ := parent_of_div hbase hname
    exact ⟨parent, by rw [Path.extend_concat base [] name]; exact hparent⟩
  · rw [List.concat_eq_append] at hnames ⊢
    exact ⟨_, parent?_extend (hnames last (by simp)) hname⟩

/-- Directories are made first, and the text is written where that succeeded. -/
theorem writeText_made {env middle : Environment} {path parent : Path}
    (hparent : path.parent? = some parent) (hmade : makeAbove path env = .ok () middle) :
    writeText path content env =
      (Environment.write path (Text.encode content)).during (.writing path) middle := by
  rw [makeAbove, hparent] at hmade
  rw [writeText, hparent]
  simp only at hmade ⊢
  rw [bind_eq, during_eq, hmade]

/-- A text that could not be put below a directory cannot be put there again. -/
theorem writeText_below {cause : Failure} (hbase : old.isDirectory base = true)
    (hnames : ∀ other ∈ init ++ [name], IsFileName other)
    (h : writeText (base.extend (init ++ [name])) content old = .error cause old')
    (grows : Grows (fun _ _ => True) old' new) :
    writeText (base.extend (init ++ [name])) content new = .error cause new := by
  have hname := hnames name (List.mem_append_right _ List.mem_cons_self)
  have above := makeAbove_below hbase hnames
  obtain ⟨parent, hparent⟩ := parent?_below hbase hnames
  have hstuck : ∀ {env middle : Environment} {fault : IoError},
      makeAbove (base.extend (init ++ [name])) env = .error fault middle →
        writeText (base.extend (init ++ [name])) content env =
          .error (.during (.creating parent) (.io fault)) middle := by
    intro env middle fault hmade
    rw [makeAbove, hparent] at hmade
    rw [writeText, hparent]
    simp only at hmade ⊢
    rw [bind_eq, during_eq, hmade]
  rcases hmade : makeAbove (base.extend (init ++ [name])) old with ⟨⟨⟩, middle⟩ | ⟨fault, middle⟩
  · obtain ⟨hthere, -⟩ := above.made hmade (.refl middle)
    have hbase' : middle.isDirectory base = true := by
      have hgrows := above.grows
      rw [hmade] at hgrows
      exact hgrows.isDirectory hbase
    rw [writeText_made hparent hmade, during_eq] at h
    rcases hwritten : Environment.write (base.extend (init ++ [name])) (Text.encode content) middle
      with ⟨_, last⟩ | ⟨fault, last⟩
    · rw [hwritten] at h
      cases h
    · obtain rfl := write_error hwritten
      rw [hwritten] at h
      cases h
      rw [writeText_made hparent (above.made hmade grows).2, during_eq,
        write_error_mono grows hbase' hnames (write_directly hthere hname hwritten) hwritten]
  · rw [hstuck hmade] at h
    cases h
    exact hstuck (above.stuck hmade grows)

/-- The same for a text that is put there whatever was there before. -/
theorem deposit_below {cause : Failure} (hbase : old.isDirectory base = true)
    (hnames : ∀ other ∈ init ++ [name], IsFileName other)
    (h : Environment.deposit .always (base.extend (init ++ [name])) content old = .error cause old')
    (grows : Grows (fun _ _ => True) old' new) :
    Environment.deposit .always (base.extend (init ++ [name])) content new = .error cause new := by
  rw [Environment.deposit, if_neg (by simp)] at h ⊢
  obtain hwritten | ⟨_, _, -, hpure⟩ := of_bind_error h
  · rw [bind_eq, writeText_below hbase hnames hwritten grows]
  · cases hpure

/-! ## Actions -/

section Actions

variable {α β : Type} {action : EnvironmentAction α} {next : α → EnvironmentAction β}

/-- Both calls end an action alike. -/
inductive EndsAlike (final old new : Environment) :
    EStateM.Result Failure Environment α → EStateM.Result Failure Environment α → Prop
  | ok {value : α} {old' new' : Environment} (moves : Moves final old new old' new') :
      EndsAlike final old new (.ok value old') (.ok value new')
  | error {cause : Failure} {old' new' : Environment} (moves : Moves final old new old' new') :
      EndsAlike final old new (.error cause old') (.error cause new')

theorem EndsAlike.after {result result' : EStateM.Result Failure Environment α}
    (moves : Moves final old new old' new') (h : EndsAlike final old' new' result result') :
    EndsAlike final old new result result' := by
  cases h with
  | ok moves' => exact .ok (moves.trans moves')
  | error moves' => exact .error (moves.trans moves')

/-- The second call ends an action as the first one did, if what the first one left in the end goes
    beyond what it left then. -/
def Repeats (final : Environment) (action : EnvironmentAction α) (old new : Environment) : Prop :=
  Grows (fun _ _ => True) (finalState (action old)) final →
    EndsAlike final old new (action old) (action new)

theorem Repeats.of_ok {value : α} (h : Repeats final action old new)
    (hold : action old = .ok value old') (below : Grows (fun _ _ => True) old' final) :
    ∃ new', action new = .ok value new' ∧ Moves final old new old' new' := by
  have alike := h (by rw [hold]; exact below)
  rw [hold] at alike
  generalize hnew : action new = result at alike
  cases alike with
  | ok moves => exact ⟨_, rfl, moves⟩

theorem Repeats.pure (h : Retraces final old new) (value : α) :
    Repeats final (pure value) old new :=
  fun _ => .ok (.refl h)

theorem Repeats.bind (h : Repeats final action old new)
    (keeps : ∀ value, Keeps (Grows (fun _ _ => True)) (next value))
    (hnext : ∀ {value old' new'}, action old = .ok value old' → Moves final old new old' new' →
      Repeats final (next value) old' new') :
    Repeats final (action >>= next) old new := by
  intro below
  rw [bind_eq] at below
  rw [bind_eq, bind_eq]
  rcases hfirst : action old with ⟨value, old'⟩ | ⟨cause, old'⟩
  · rw [hfirst] at below
    obtain ⟨new', hsecond, moves⟩ := h.of_ok hfirst ((keeps value old').trans below)
    rw [hsecond]
    exact (hnext hfirst moves below).after moves
  · rw [hfirst] at below
    have alike := h (by rw [hfirst]; exact below)
    rw [hfirst] at alike
    generalize hnew : action new = result at alike
    cases alike with
    | error moves => exact .error moves

/-- A text is put below a directory again, or fails to be put there again. -/
theorem Retraces.repeats_deposit (h : Retraces final old new) (hbase : old.isDirectory base = true)
    (hnames : ∀ other ∈ init ++ [name], IsFileName other) (content : String) :
    Repeats final (Environment.deposit .always (base.extend (init ++ [name])) content) old new := by
  intro below
  rcases hold : Environment.deposit .always (base.extend (init ++ [name])) content old with
    ⟨done, old'⟩ | ⟨cause, old'⟩
  · rw [hold] at below
    obtain ⟨done', new', hnew, moves, -⟩ := h.deposit hold below
    rw [hnew]
    -- Nothing is left as it was when it is written in any case.
    have hwritten : ∀ {env after : Environment} {done : Deposit},
        Environment.deposit .always (base.extend (init ++ [name])) content env = .ok done after →
        done = .written := by
      intro env after done hdeposit
      rw [Environment.deposit, if_neg (by simp)] at hdeposit
      obtain ⟨_, _, -, hdone⟩ := of_bind_ok hdeposit
      cases hdone
      rfl
    rw [hwritten hold, hwritten hnew]
    exact .ok moves
  · rw [hold] at below
    rw [deposit_below hbase hnames hold (below.trans h.onto)]
    exact .error (h.directories (deposit_error hold) below)

end Actions

end KotlinHarness.Environment
