/-
  Libraries that are switched off.

  A library that is switched off is left out of the libraries that a common class path takes from the
  host, but not of the host's whole class path: when that is inherited, the library comes back with it
  (`resolve_switchedOff`).  It cannot come back as another library, because the file names of two
  libraries start differently (`RuntimeLibrary.Apart`), and one path has one file name however it is
  spelled (`Path.fileName?_of_sameAs`).
-/
import KotlinHarness.Proofs.Workspace.Prepared

namespace KotlinHarness

/-! ## Spellings of one path -/

namespace Path

variable {p q : Path}

/-- The name that a component is. -/
def nameOf? : Component → Option String
  | .normal name => some name
  | _ => none

theorem bind_nameOf? (segments : List String) :
    (segments.findSome? Component.ofSegment?).bind nameOf? =
      match segments.dropWhile isIdle with
      | [] => none
      | last :: _ => if last = ".." then none else some last := by
  induction segments with
  | nil => rfl
  | cons segment rest ih =>
    by_cases idle : segment = "" ∨ segment = "."
    · have hidle : isIdle segment = true := by simpa [isIdle] using idle
      rw [List.dropWhile_cons_of_pos hidle, List.findSome?_cons, Component.ofSegment?,
        if_pos (by simpa using idle)]
      exact ih
    · obtain ⟨hempty, hdot⟩ := not_or.1 idle
      by_cases hup : segment = ".."
      · simp [isIdle, Component.ofSegment?, hup, nameOf?]
      · simp [isIdle, Component.ofSegment?, hempty, hdot, hup, nameOf?]

/-- A component that is no name makes no difference in front of others. -/
theorem getLast?_bind_nameOf? {first : Component} (h : nameOf? first = none) (body : List Component) :
    (first :: body).getLast?.bind nameOf? = body.getLast?.bind nameOf? := by
  cases body with
  | nil => exact h
  | cons second body => rw [List.getLast?_cons_cons]

/-- The file name is the last component, when that is a name. -/
theorem fileName?_eq (p : Path) : p.fileName? = p.components.getLast?.bind nameOf? := by
  have hbody : (p.segments.filterMap Component.ofSegment?).getLast? =
      p.segments.reverse.findSome? Component.ofSegment? := by
    rw [List.getLast?_eq_head?_reverse, ← List.filterMap_reverse, List.head?_filterMap]
  have hname : p.fileName? =
      (p.segments.filterMap Component.ofSegment?).getLast?.bind nameOf? := by
    rw [hbody, bind_nameOf?, fileName?, splitLast?]
    cases p.segments.reverse.dropWhile isIdle <;> rfl
  rw [hname]
  simp only [components]
  split
  · rw [getLast?_bind_nameOf? rfl]
  · split
    · rw [getLast?_bind_nameOf? rfl]
    · rfl

theorem fileName?_of_sameAs (same : p.sameAs q = true) : p.fileName? = q.fileName? := by
  rw [sameAs, beq_iff_eq] at same
  rw [fileName?_eq, fileName?_eq, same]

/-- Leaving out later spellings loses no path. -/
theorem isAmong_dedup (p : Path) (paths : List Path) : p.isAmong (dedup paths) = p.isAmong paths := by
  have hstep : ∀ (kept : List Path) (next : Path),
      p.isAmong (if next.isAmong kept then kept else kept ++ [next]) =
        (p.isAmong kept || next.sameAs p) := by
    intro kept next
    split
    · next hnext =>
      -- The spelling that was met first is the same path.
      rcases hsame : next.sameAs p with - | -
      · rw [Bool.or_false]
      · obtain ⟨first, hfirst, hsame'⟩ := List.any_eq_true.1 hnext
        rw [Bool.or_true]
        refine List.any_eq_true.2 ⟨first, hfirst, ?_⟩
        rw [sameAs, beq_iff_eq] at hsame hsame' ⊢
        exact hsame'.trans hsame
    · simp [isAmong]
  have hfold : ∀ (rest kept : List Path),
      p.isAmong (rest.foldl (fun kept p => if p.isAmong kept then kept else kept ++ [p]) kept) =
        (p.isAmong kept || p.isAmong rest) := by
    intro rest
    induction rest with
    | nil => exact fun kept => (Bool.or_false _).symm
    | cons first rest ih =>
      intro kept
      rw [List.foldl_cons, ih, hstep, Bool.or_assoc]
      rfl
  exact hfold paths []

theorem isAmong_append (p : Path) (paths others : List Path) :
    p.isAmong (paths ++ others) = (p.isAmong paths || p.isAmong others) := List.any_append

end Path

/-! ## Names of libraries -/

namespace RuntimeLibrary

variable {library other : RuntimeLibrary} {p q : Path}

/-- What the file names of a library start with. -/
def starts (library : RuntimeLibrary) : List String := library.simpleNames ++ library.versionedNames

theorem exists_start {fileName : String} (h : library.hasName fileName = true) :
    ∃ start ∈ library.starts, start.toList <+: fileName.toList := by
  rw [hasName, Bool.or_eq_true, List.contains_iff_mem, List.any_eq_true] at h
  rcases h with h | ⟨name, hm, h⟩
  · exact ⟨fileName, List.mem_append_left _ h, List.prefix_rfl⟩
  · refine ⟨name, List.mem_append_right _ hm, ?_⟩
    rw [isVersioned] at h
    split at h
    · next rest hrest =>
      rw [← List.isPrefixOf?_eq_some_iff_append_eq.1 hrest, List.append_assoc]
      exact List.prefix_append _ _
    · cases h

/-- No file name starts as both libraries do. -/
def Apart (library other : RuntimeLibrary) : Prop :=
  ∀ start ∈ library.starts, ∀ start' ∈ other.starts,
    ¬ start.toList <+: start'.toList ∧ ¬ start'.toList <+: start.toList

instance : Decidable (Apart library other) := by
  unfold Apart
  infer_instance

/-- Of two libraries whose names start differently, no path is both. -/
theorem Apart.not_isMatch (apart : Apart library other) (h : library.isMatch p = true)
    (same : q.sameAs p = true) : other.isMatch q = false := by
  rw [isMatch] at h
  split at h
  · next fileName hname =>
    rw [isMatch, Path.fileName?_of_sameAs same, hname, ← Bool.not_eq_true]
    intro hother
    obtain ⟨start, hm, hstart⟩ := exists_start h
    obtain ⟨start', hm', hstart'⟩ := exists_start hother
    rcases List.prefix_or_prefix_of_prefix hstart hstart' with hle | hle
    · exact (apart start hm start' hm').1 hle
    · exact (apart start hm start' hm').2 hle
  · cases h

theorem isMatch_of_find? {entries : List Path} (h : library.find? entries = some p) :
    library.isMatch p = true := List.find?_some h

/-- A library is not among the entries for another one. -/
theorem not_isAmong_find? {entries : List Path} (apart : Apart library other)
    (h : library.isMatch p = true) : p.isAmong (other.find? entries).toList = false := by
  rcases hother : other.find? entries with - | q
  · rfl
  · rw [Option.toList_some, ← Bool.not_eq_true, Path.isAmong, List.any_eq_true]
    rintro ⟨q', hm, same⟩
    obtain rfl := List.mem_singleton.1 hm
    have hmatch := isMatch_of_find? hother
    rw [apart.not_isMatch h same] at hmatch
    cases hmatch

end RuntimeLibrary

/-! ## Class paths -/

namespace ClassPath

variable {user host : List Path} {choice : Choice} {jar : Path}

/-- A path that is none of the libraries kept is on the common class path as an entry of the user, or
    of the host's class path when that is inherited. -/
theorem isAmong_common (h : jar.isAmong (support (RuntimeJars.discover host) choice) = false) :
    jar.isAmong (common user (RuntimeJars.discover host) host choice) =
      (jar.isAmong user || (choice.inheritHost && jar.isAmong host)) := by
  rw [common, Path.isAmong_dedup, Path.isAmong_append, Path.isAmong_append, h, Bool.or_false]
  cases choice.inheritHost <;> rfl

theorem stdlib_not_isAmong_support (off : choice.noStdlib = true)
    (h : jar ∈ (RuntimeJars.discover host).stdlib ∨ jar ∈ (RuntimeJars.discover host).stdlibCommon) :
    jar.isAmong (support (RuntimeJars.discover host) choice) = false := by
  have absent : ∀ library : RuntimeLibrary, library.Apart .reflect → library.Apart .scriptRuntime →
      library.isMatch jar = true → jar.isAmong (support (RuntimeJars.discover host) choice) = false := by
    intro library reflect script hmatch
    rw [support, if_pos off, List.nil_append, Path.isAmong_append, Bool.or_eq_false_iff]
    refine ⟨?_, RuntimeLibrary.not_isAmong_find? script hmatch⟩
    split
    · rfl
    · exact RuntimeLibrary.not_isAmong_find? reflect hmatch
  rcases h with h | h
  · exact absent .stdlib (by decide) (by decide) (RuntimeLibrary.isMatch_of_find? h)
  · exact absent .stdlibCommon (by decide) (by decide) (RuntimeLibrary.isMatch_of_find? h)

theorem reflect_not_isAmong_support (off : choice.noReflect = true)
    (h : jar ∈ (RuntimeJars.discover host).reflect) :
    jar.isAmong (support (RuntimeJars.discover host) choice) = false := by
  have hmatch := RuntimeLibrary.isMatch_of_find? h
  have absent : ∀ other : RuntimeLibrary, RuntimeLibrary.reflect.Apart other →
      jar.isAmong (other.find? host).toList = false := fun _ apart =>
    RuntimeLibrary.not_isAmong_find? apart hmatch
  rw [support, if_pos off, List.append_nil, Path.isAmong_append, Bool.or_eq_false_iff]
  refine ⟨?_, absent .scriptRuntime (by decide)⟩
  split
  · rfl
  · rw [Path.isAmong_append, Bool.or_eq_false_iff]
    exact ⟨absent .stdlib (by decide), absent .stdlibCommon (by decide)⟩

end ClassPath

namespace Resolution

theorem resolve_classpath {config : Compilation} {host : Host} {needsKapt : Bool}
    {env after : Environment} {resolution : Resolution}
    (h : resolve config host needsKapt env = .ok resolution after) :
    resolution.runtime = RuntimeJars.discover resolution.hostClasspath ∧
      resolution.classpath = ClassPath.common config.classpaths resolution.runtime
        resolution.hostClasspath ⟨config.inheritClasspath, config.noStdlib, config.noReflect⟩ := by
  rw [resolve] at h
  obtain ⟨root, middle, -, h⟩ := of_bind_ok h
  rw [get_bind] at h
  rcases hinside : inWorkspace middle config host needsKapt ⟨root⟩ with cause | settled
  · rw [hinside] at h
    cases h
  · rw [hinside] at h
    cases h
    obtain ⟨-, toolsJar, directory, -, -, rfl⟩ := inWorkspace_iff.1 hinside
    exact ⟨rfl, rfl⟩

/-- **Libraries that are switched off**: the one that was discovered is on the common class path if and
    only if the user put it there or the host's class path is inherited.  So switching a library off
    keeps it away from every class path that does not inherit the host's, whatever the other
    options. -/
theorem resolve_switchedOff {config : Compilation} {host : Host} {needsKapt : Bool}
    {env after : Environment} {resolution : Resolution}
    (h : resolve config host needsKapt env = .ok resolution after) :
    (config.noStdlib = true → ∀ jar : Path,
      (jar ∈ resolution.runtime.stdlib ∨ jar ∈ resolution.runtime.stdlibCommon) →
      (jar.isAmong resolution.classpath = true ↔
        jar.isAmong config.classpaths = true ∨ config.inheritClasspath = true)) ∧
    (config.noReflect = true → ∀ jar ∈ resolution.runtime.reflect,
      (jar.isAmong resolution.classpath = true ↔
        jar.isAmong config.classpaths = true ∨ config.inheritClasspath = true)) := by
  obtain ⟨hruntime, hclasspath⟩ := resolve_classpath h
  have hiff : ∀ jar ∈ resolution.hostClasspath,
      jar.isAmong (ClassPath.support (RuntimeJars.discover resolution.hostClasspath)
        ⟨config.inheritClasspath, config.noStdlib, config.noReflect⟩) = false →
      (jar.isAmong resolution.classpath = true ↔
        jar.isAmong config.classpaths = true ∨ config.inheritClasspath = true) := by
    intro jar hm habsent
    rw [hclasspath, hruntime, ClassPath.isAmong_common habsent, Path.isAmong_of_mem hm, Bool.and_true,
      Bool.or_eq_true]
  rw [hruntime]
  constructor
  · intro off jar hjar
    refine hiff jar ?_ (ClassPath.stdlib_not_isAmong_support off hjar)
    exact hjar.elim List.mem_of_find?_eq_some List.mem_of_find?_eq_some
  · intro off jar hjar
    exact hiff jar (List.mem_of_find?_eq_some hjar) (ClassPath.reflect_not_isAmong_support off hjar)

/-- A host with both libraries. -/
def kotlinHost : Host := .fixed [⟨"/k/kotlin-stdlib.jar"⟩, ⟨"/k/kotlin-reflect.jar"⟩] none []

/-- Both libraries are switched off; the user names one of them, in another spelling. -/
def withoutLibraries (inherit : Bool) : Compilation :=
  { workingDir := some ⟨"/w"⟩, classpaths := [⟨"/k/./kotlin-reflect.jar"⟩]
    inheritClasspath := inherit, noStdlib := true, noReflect := true }

/-- The standard library stays away, and the other library is there as an entry of the user. -/
theorem withoutLibraries_switchedOff : ∃ resolution after,
    resolve (withoutLibraries false) kotlinHost false default = .ok resolution after ∧
      (⟨"/k/kotlin-stdlib.jar"⟩ : Path) ∈ resolution.runtime.stdlib ∧
      (⟨"/k/kotlin-stdlib.jar"⟩ : Path).isAmong resolution.classpath = false ∧
      (⟨"/k/kotlin-reflect.jar"⟩ : Path) ∈ resolution.runtime.reflect ∧
      (⟨"/k/kotlin-reflect.jar"⟩ : Path).isAmong resolution.classpath = true := by
  have succeeds : succeedsWith (fun resolution _ =>
      decide (resolution.runtime.stdlib = some ⟨"/k/kotlin-stdlib.jar"⟩ ∧
        resolution.runtime.reflect = some ⟨"/k/kotlin-reflect.jar"⟩))
      (resolve (withoutLibraries false) kotlinHost false default) = true := by decide +kernel
  obtain ⟨resolution, after, h, hfound⟩ := of_succeedsWith succeeds
  obtain ⟨hstdlib, hreflect⟩ := of_decide_eq_true hfound
  obtain ⟨stdlib, reflect⟩ := resolve_switchedOff h
  refine ⟨resolution, after, h, hstdlib, ?_, hreflect, ?_⟩
  · rw [← Bool.not_eq_true, stdlib rfl _ (.inl hstdlib)]
    decide +kernel
  · rw [reflect rfl _ hreflect]
    decide +kernel

/-- With the host's class path a library is back that is switched off and that no user named. -/
theorem switchedOff_inherited : ¬ ∀ (config : Compilation) (host : Host) (needsKapt : Bool)
    (env after : Environment) (resolution : Resolution),
    resolve config host needsKapt env = .ok resolution after →
      (config.noStdlib = true → ∀ jar : Path,
        (jar ∈ resolution.runtime.stdlib ∨ jar ∈ resolution.runtime.stdlibCommon) →
        jar.isAmong resolution.classpath = true → jar.isAmong config.classpaths = true) ∧
      (config.noReflect = true → ∀ jar ∈ resolution.runtime.reflect,
        jar.isAmong resolution.classpath = true → jar.isAmong config.classpaths = true) := by
  intro hall
  have inherits : succeedsWith (fun resolution _ =>
      decide (resolution.runtime.stdlib = some ⟨"/k/kotlin-stdlib.jar"⟩ ∧
        (⟨"/k/kotlin-stdlib.jar"⟩ : Path).isAmong resolution.classpath = true))
      (resolve (withoutLibraries true) kotlinHost false default) = true := by decide +kernel
  obtain ⟨resolution, after, h, hfound⟩ := of_succeedsWith inherits
  obtain ⟨hstdlib, hthere⟩ := of_decide_eq_true hfound
  have hnamed := (hall _ _ _ _ _ _ h).1 rfl _ (.inl hstdlib) hthere
  revert hnamed
  decide +kernel

end Resolution

end KotlinHarness
