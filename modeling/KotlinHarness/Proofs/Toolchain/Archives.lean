/-
  The archives of runtime libraries, told by their file names.

  `IsArchive` says how the file names of a library are spelled, and `hasName_iff` that these names are
  recognized and no others.  A patch number and the characters after it may be anything that the
  characters after the second number may be, so the recognizer looks for two numbers only.

  The names of some libraries start with those of others, yet no file name belongs to two of the five
  (`Role.eq_of_isArchive`): a version starts with the first digit of the file name, right behind the
  name of the library and a dash, and without a version there is no digit.  So what precedes the first
  digit tells the library.

    * `discover_roles`   which entry of a class path is found for each library
-/
import KotlinHarness.Proofs.Source.Scanned
import KotlinHarness.Proofs.Toolchain.SwitchedOff

namespace KotlinHarness

/-! ## Spelling of file names -/

/-- A character that may stand behind the numbers of a version. -/
def IsSuffixChar (c : Char) : Prop := c.isAlpha = true ∨ c.isDigit = true ∨ c = '.' ∨ c = '-'

/-- A version as archives have it: two numbers with a dot in between, perhaps a dot and a third one,
    and perhaps more letters, digits, dots and dashes. -/
def IsVersion (text : List Char) : Prop :=
  ∃ major minor patch suffix, text = major ++ '.' :: (minor ++ (patch ++ suffix)) ∧
    Source.IsRun Char.isDigit major ∧ Source.IsRun Char.isDigit minor ∧
    (patch = [] ∨ ∃ number, Source.IsRun Char.isDigit number ∧ patch = '.' :: number) ∧
    ∀ c ∈ suffix, IsSuffixChar c

namespace RuntimeLibrary

variable {library : RuntimeLibrary} {fileName name : String} {rest tail : List Char} {p : Path}

theorem isSuffixChar_iff (c : Char) : isSuffixChar c = true ↔ IsSuffixChar c := by
  simp only [isSuffixChar, IsSuffixChar, Char.isAlphanum, Bool.or_eq_true, beq_iff_eq, or_assoc]

theorem dot_ends_number (rest : List Char) : Source.Stops Char.isDigit ('.' :: rest) :=
  Source.stops_cons.2 (by decide)

/-- The first number is taken to its end, and so is the second one, into whatever follows. -/
theorem afterNumbers?_append {major minor : List Char} (hmajor : Source.IsRun Char.isDigit major)
    (hminor : Source.IsRun Char.isDigit minor) (tail : List Char) :
    afterNumbers? (major ++ '.' :: (minor ++ tail)) = some (tail.dropWhile Char.isDigit) := by
  obtain ⟨htake, hdrop⟩ := Source.takeWhile_append hmajor.2 (dot_ends_number (minor ++ tail))
  have hne : major.isEmpty = false := by simpa using hmajor.1
  have hne' : ((minor ++ tail).takeWhile Char.isDigit).isEmpty = false := by
    rw [List.takeWhile_append_of_pos hminor.2]
    simp [hminor.1]
  simp only [afterNumbers?, htake, hdrop, hne, hne', Bool.or_self, Bool.false_eq_true, if_false,
    List.dropWhile_append_of_pos hminor.2]

/-- What precedes the rest after the numbers. -/
theorem afterNumbers?_eq_some (h : afterNumbers? rest = some tail) :
    ∃ major minor, rest = major ++ '.' :: (minor ++ tail) ∧ Source.IsRun Char.isDigit major ∧
      Source.IsRun Char.isDigit minor := by
  have hall : ∀ text : List Char, ∀ c ∈ text.takeWhile Char.isDigit, c.isDigit = true :=
    fun _ => List.all_eq_true.1 List.all_takeWhile
  simp only [afterNumbers?] at h
  split at h
  · next minor hminor =>
    split at h
    · cases h
    · next hsome =>
      cases h
      rw [Bool.or_eq_true, not_or, List.isEmpty_iff, List.isEmpty_iff] at hsome
      refine ⟨rest.takeWhile Char.isDigit, minor.takeWhile Char.isDigit, ?_, ⟨hsome.1, hall rest⟩,
        ⟨hsome.2, hall minor⟩⟩
      rw [List.takeWhile_append_dropWhile, ← hminor, List.takeWhile_append_dropWhile]
  · cases h

theorem take_extension (front : List Char) :
    (front ++ ".jar".toList).take ((front ++ ".jar".toList).length - 4) = front := by
  rw [List.length_append]
  exact List.take_left

/-- What stands behind the second number may start with more digits, but those end before the
    extension. -/
theorem dropWhile_extension (behind : List Char) : (behind ++ ".jar".toList).dropWhile Char.isDigit =
    behind.dropWhile Char.isDigit ++ ".jar".toList := by
  rw [List.dropWhile_append]
  split
  · next hempty =>
    rw [List.isEmpty_iff.1 hempty]
    exact (dot_ends_number _).takeWhile.2
  · rfl

/-- A patch number is made of characters that may stand behind the numbers. -/
theorem isSuffixChar_behind {patch suffix : List Char}
    (hpatch : patch = [] ∨ ∃ number, Source.IsRun Char.isDigit number ∧ patch = '.' :: number)
    (hsuffix : ∀ c ∈ suffix, IsSuffixChar c) : ∀ c ∈ patch ++ suffix, isSuffixChar c = true := by
  intro c hc
  rw [isSuffixChar_iff]
  rcases List.mem_append.1 hc with hc | hc
  · rcases hpatch with rfl | ⟨number, hnumber, rfl⟩
    · exact absurd hc List.not_mem_nil
    · rcases List.mem_cons.1 hc with rfl | hc
      · exact .inr (.inr (.inl rfl))
      · exact .inr (.inl (hnumber.2 c hc))
  · exact hsuffix c hc

/-- The end of a versioned name: what the recognizer takes the suffix for may hold a patch number. -/
theorem isVersionedEnd_iff :
    isVersionedEnd rest = true ↔ ∃ version, IsVersion version ∧ rest = version ++ ".jar".toList := by
  constructor
  · intro h
    rw [isVersionedEnd] at h
    split at h
    · cases h
    · next tail hnumbers =>
      obtain ⟨major, minor, rfl, hmajor, hminor⟩ := afterNumbers?_eq_some hnumbers
      obtain ⟨hjar, hsuffix⟩ := Bool.and_eq_true_iff.1 h
      obtain ⟨suffix, rfl⟩ := List.isSuffixOf_iff_suffix.1 hjar
      rw [take_extension, List.all_eq_true] at hsuffix
      refine ⟨major ++ '.' :: (minor ++ ([] ++ suffix)),
        ⟨major, minor, [], suffix, rfl, hmajor, hminor, .inl rfl, fun c hc => ?_⟩, by simp⟩
      exact (isSuffixChar_iff c).1 (hsuffix c hc)
  · rintro ⟨version, ⟨major, minor, patch, suffix, rfl, hmajor, hminor, hpatch, hsuffix⟩, rfl⟩
    have hall := isSuffixChar_behind hpatch hsuffix
    generalize patch ++ suffix = behind at hall
    have hnumbers : afterNumbers? (major ++ '.' :: (minor ++ behind) ++ ".jar".toList) =
        some (behind.dropWhile Char.isDigit ++ ".jar".toList) := by
      rw [List.append_assoc, List.cons_append, List.append_assoc, afterNumbers?_append hmajor hminor,
        dropWhile_extension]
    simp only [isVersionedEnd, hnumbers, Bool.and_eq_true]
    refine ⟨List.isSuffixOf_iff_suffix.2 (List.suffix_append _ _), ?_⟩
    rw [take_extension]
    exact List.all_eq_true.2 fun c hc => hall c ((List.dropWhile_suffix _).subset hc)

theorem isVersioned_iff : isVersioned fileName.toList name.toList = true ↔
    ∃ version, IsVersion version ∧ fileName = name ++ "-" ++ String.ofList version ++ ".jar" := by
  have hspelled : ∀ version : List Char,
      fileName = name ++ "-" ++ String.ofList version ++ ".jar" ↔
        (name.toList ++ ['-']) ++ (version ++ ".jar".toList) = fileName.toList := by
    intro version
    rw [← String.toList_inj]
    simp only [String.toList_append, String.toList_ofList, List.append_assoc]
    exact eq_comm
  simp only [isVersioned, hspelled]
  rcases hrest : (name.toList ++ ['-']).isPrefixOf? fileName.toList with - | rest
  · refine ⟨fun h => (by cases h), ?_⟩
    rintro ⟨version, -, h⟩
    rw [List.isPrefixOf?_eq_some_iff_append_eq.2 h] at hrest
    cases hrest
  · rw [← List.isPrefixOf?_eq_some_iff_append_eq.1 hrest]
    simp only [isVersionedEnd_iff, List.append_cancel_left_eq]
    exact exists_congr fun version => and_congr_right fun _ => eq_comm

/-- How the file names of a library's archives are spelled. -/
def IsArchive (library : RuntimeLibrary) (fileName : String) : Prop :=
  fileName ∈ library.simpleNames ∨ ∃ name ∈ library.names, ∃ version, IsVersion version ∧
    fileName = name ++ "-" ++ String.ofList version ++ ".jar"

/-- A path whose file name is that of an archive. -/
def Fits (library : RuntimeLibrary) (p : Path) : Prop :=
  ∃ fileName, p.fileName? = some fileName ∧ library.IsArchive fileName

theorem hasName_iff (named : library.names ≠ []) :
    library.hasName fileName = true ↔ library.IsArchive fileName := by
  have hnames : library.versionedNames = library.names := if_neg (by simpa using named)
  simp only [hasName, hnames, IsArchive, Bool.or_eq_true, List.contains_iff_mem, List.any_eq_true,
    isVersioned_iff]

theorem isMatch_iff (named : library.names ≠ []) : library.isMatch p = true ↔ library.Fits p := by
  rw [isMatch, Fits]
  rcases p.fileName? with - | fileName
  · simp
  · simp [hasName_iff named]

/-- The entry found is the first that fits. -/
theorem find?_eq_some_iff (named : library.names ≠ []) {entries : List Path} :
    library.find? entries = some p ↔
      ∃ before after, entries = before ++ p :: after ∧ library.Fits p ∧ ∀ q ∈ before, ¬ library.Fits q := by
  simp only [find?, List.find?_eq_some_iff_append, ← isMatch_iff named, Bool.not_eq_true,
    Bool.not_eq_true']
  constructor
  · rintro ⟨hp, before, after, heq, hbefore⟩
    exact ⟨before, after, heq, hp, hbefore⟩
  · rintro ⟨before, after, heq, hp, hbefore⟩
    exact ⟨hp, before, after, heq, hbefore⟩

/-! ## What precedes the first digit -/

/-- The beginning of a file name up to its first digit. -/
def stem (fileName : String) : List Char := fileName.toList.takeWhile (!·.isDigit)

/-- The stems that the file names of a library have. -/
def stems (library : RuntimeLibrary) : List (List Char) :=
  library.simpleNames.map String.toList ++ library.names.map fun name => name.toList ++ ['-']

/-- No digit stands in the names themselves. -/
def IsDigitless (library : RuntimeLibrary) : Prop :=
  ∀ name ∈ library.simpleNames ++ library.names, ∀ c ∈ name.toList, (!c.isDigit) = true

theorem stem_of_version {version : List Char} (digitless : ∀ c ∈ name.toList, (!c.isDigit) = true)
    (h : IsVersion version) :
    stem (name ++ "-" ++ String.ofList version ++ ".jar") = name.toList ++ ['-'] := by
  obtain ⟨major, minor, patch, suffix, rfl, hmajor, -, -, -⟩ := h
  obtain ⟨first, more, rfl⟩ := List.exists_cons_of_ne_nil hmajor.1
  have hfirst : first.isDigit = true := hmajor.2 first List.mem_cons_self
  have hfront : ∀ c ∈ name.toList ++ ['-'], (!c.isDigit) = true := by
    intro c hc
    rcases List.mem_append.1 hc with hc | hc
    · exact digitless c hc
    · rw [List.mem_singleton.1 hc]
      decide
  have hspelled : (name ++ "-" ++ String.ofList (first :: more ++ '.' :: (minor ++ (patch ++ suffix)))
      ++ ".jar").toList = (name.toList ++ ['-']) ++ first ::
        (more ++ '.' :: (minor ++ (patch ++ suffix)) ++ ".jar".toList) := by
    simp [String.toList_append]
  rw [stem, hspelled]
  exact (Source.takeWhile_append hfront (Source.stops_cons.2 (by simp [hfirst]))).1

theorem stem_mem (digitless : library.IsDigitless) (h : library.IsArchive fileName) :
    stem fileName ∈ library.stems := by
  rcases h with hsimple | ⟨name, hname, version, hversion, rfl⟩
  · have hall := digitless fileName (List.mem_append_left _ hsimple)
    rw [stem, List.takeWhile_eq_self_iff.2 hall]
    exact List.mem_append_left _ (List.mem_map_of_mem hsimple)
  · rw [stem_of_version (digitless name (List.mem_append_right _ hname)) hversion]
    exact List.mem_append_right _ (List.mem_map_of_mem hname)

end RuntimeLibrary

/-! ## Roles -/

/-- The parts that runtime libraries play in a compile call. -/
inductive Role where
  | stdlib
  | stdlibCommon
  | reflect
  | scriptRuntime
  | kaptPlugin
  deriving DecidableEq

namespace Role

/-- The library that plays the part. -/
def library : Role → RuntimeLibrary
  | stdlib => .stdlib
  | stdlibCommon => .stdlibCommon
  | reflect => .reflect
  | scriptRuntime => .scriptRuntime
  | kaptPlugin => .kaptPlugin

theorem names_ne_nil (role : Role) : role.library.names ≠ [] := by
  cases role <;> decide

theorem isDigitless (role : Role) : role.library.IsDigitless := by
  have hall : (role.library.simpleNames ++ role.library.names).all
      (fun name => name.toList.all (!·.isDigit)) = true := by
    cases role <;> decide
  exact fun name hname => List.all_eq_true.1 (List.all_eq_true.1 hall name hname)

/-- Two libraries have no stem in common. -/
theorem eq_of_mem_stems {role other : Role} {stem : List Char} (h : stem ∈ role.library.stems)
    (h' : stem ∈ other.library.stems) : role = other := by
  have apart : ∀ stem ∈ role.library.stems, stem ∈ other.library.stems → role = other := by
    cases role <;> cases other <;> decide
  exact apart stem h h'

/-- No file name is an archive of two libraries. -/
theorem eq_of_isArchive {role other : Role} {fileName : String} (h : role.library.IsArchive fileName)
    (h' : other.library.IsArchive fileName) : role = other :=
  eq_of_mem_stems (RuntimeLibrary.stem_mem role.isDigitless h)
    (RuntimeLibrary.stem_mem other.isDigitless h')

end Role

namespace RuntimeJars

/-- The entry found for a library. -/
def get? (jars : RuntimeJars) : Role → Option Path
  | .stdlib => jars.stdlib
  | .stdlibCommon => jars.stdlibCommon
  | .reflect => jars.reflect
  | .scriptRuntime => jars.scriptRuntime
  | .kaptPlugin => jars.kaptPlugin

theorem get?_discover (entries : List Path) (role : Role) :
    (discover entries).get? role = role.library.find? entries := by
  cases role <;> rfl

/-- **What is found on a class path**: for each library the first entry whose file name is one of its
    plain names, or one of its names with a dash, a version and the extension; and none just when no
    entry has such a name.  No file name belongs to two libraries, so no entry is found for two, in
    whatever spelling. -/
theorem discover_roles (entries : List Path) :
    (∀ (role : Role) (fileName : String),
      role.library.hasName fileName = true ↔ role.library.IsArchive fileName) ∧
    (∀ (role other : Role) (fileName : String), role.library.IsArchive fileName →
      other.library.IsArchive fileName → role = other) ∧
    (∀ (role : Role) (p : Path), (discover entries).get? role = some p ↔
      ∃ before after, entries = before ++ p :: after ∧ role.library.Fits p ∧
        ∀ q ∈ before, ¬ role.library.Fits q) ∧
    (∀ role : Role, (discover entries).get? role = none ↔ ∀ q ∈ entries, ¬ role.library.Fits q) ∧
    (∀ (role other : Role) (p q : Path), (discover entries).get? role = some p →
      (discover entries).get? other = some q → p.sameAs q = true → role = other) := by
  simp only [get?_discover]
  refine ⟨fun role _ => RuntimeLibrary.hasName_iff role.names_ne_nil,
    fun _ _ _ => Role.eq_of_isArchive, fun role _ => RuntimeLibrary.find?_eq_some_iff role.names_ne_nil,
    fun role => ?_, fun role other p q hp hq same => ?_⟩
  · simp only [RuntimeLibrary.find?, List.find?_eq_none, RuntimeLibrary.isMatch_iff role.names_ne_nil]
  · obtain ⟨fileName, hname, harchive⟩ :=
      (RuntimeLibrary.isMatch_iff role.names_ne_nil).1 (RuntimeLibrary.isMatch_of_find? hp)
    obtain ⟨fileName', hname', harchive'⟩ :=
      (RuntimeLibrary.isMatch_iff other.names_ne_nil).1 (RuntimeLibrary.isMatch_of_find? hq)
    rw [Path.fileName?_of_sameAs same, hname'] at hname
    cases hname
    exact Role.eq_of_isArchive harchive harchive'

example : (discover [⟨"/m2/kotlin-stdlib-common-1.9.22.jar"⟩,
    ⟨"/m2/kotlin-stdlib-2.0.0-RC1.jar"⟩]).stdlib = some ⟨"/m2/kotlin-stdlib-2.0.0-RC1.jar"⟩ := by
  decide +kernel

end RuntimeJars

end KotlinHarness
