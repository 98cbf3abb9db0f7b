/-
  Which sources are found below a directory, and in which order.

  A walk goes through each directory in the order of names, and enters a directory where it comes to
  it.  That is the order of paths (`ascending_listFiles`), which are compared by their components:
  where two of them part there are two names in one directory.  It is not the order of the texts, in
  which `a-b/C.kt` comes before `a/C.kt`.

    * `findSources_ascends`    the sources found, each once and in the order of paths
    * `distantSource_missed`   a directory is not opened when its path gets too long, and what is
                               in it is not found

  The order of components is the root, `.`, `..` and then names by code point.
-/
import Mathlib.Data.List.Lex
import KotlinHarness.Proofs.Files.Footprint
import KotlinHarness.Proofs.Files.Planting

namespace KotlinHarness

/-! ## The order of paths -/

namespace Component

/-- The place of a kind of component in the order. -/
def rank : Component → Nat
  | root => 0
  | current => 1
  | parent => 2
  | normal _ => 3

/-- By kind, and names by their text. -/
instance : LT Component where
  lt first second := first.rank < second.rank ∨ first.rank = second.rank ∧ first.text < second.text

theorem lt_def {first second : Component} :
    first < second ↔
      first.rank < second.rank ∨ first.rank = second.rank ∧ first.text < second.text := Iff.rfl

theorem normal_lt {name other : String} (h : name < other) : normal name < normal other :=
  lt_def.2 (.inr ⟨rfl, h⟩)

theorem lt_irrefl (component : Component) : ¬ component < component := by
  rw [lt_def]
  rintro (h | ⟨-, h⟩)
  · exact Nat.lt_irrefl _ h
  · exact String.lt_irrefl _ h

end Component

namespace Path

variable {p q : Path} {below other : Location}

/-- Paths are compared component by component. -/
instance : LT Path where
  lt p q := p.components < q.components

theorem lt_def : p < q ↔ p.components < q.components := Iff.rfl

theorem lt_irrefl (p : Path) : ¬ p < p :=
  List.lex_irrefl Component.lt_irrefl p.components

/-- Below one directory, the order is that of locations. -/
theorem extend_lt (hbelow : ∀ name ∈ below, Environment.IsFileName name)
    (hother : ∀ name ∈ other, Environment.IsFileName name) (h : below < other) :
    p.extend below < p.extend other := by
  rw [lt_def, components_extend hbelow, components_extend hother]
  exact List.Lex.append_left _ (List.map_lt (fun _ _ => Component.normal_lt) h) _

end Path

/-! ## Languages -/

namespace Language

/-- The extensions of the files of a language. -/
def extensions : Language → List String
  | kotlin => ["kt", "kts"]
  | java => ["java"]

theorem ofExtension?_eq_some_iff {extension : String} {language : Language} :
    ofExtension? extension = some language ↔ extension ∈ language.extensions := by
  rw [ofExtension?]
  split
  · next h =>
    have h : extension = "kt" ∨ extension = "kts" := by simpa using h
    rcases h with rfl | rfl <;> cases language <;> decide
  · next h =>
    have h : extension ≠ "kt" ∧ extension ≠ "kts" := by simpa using h
    split
    · next hjava =>
      subst hjava
      cases language <;> decide
    · next hjava => cases language <;> simp [extensions, h, hjava]

theorem dot_notMem_extension :
    ∀ (language : Language), ∀ extension ∈ language.extensions, '.' ∉ extension.toList := by
  intro language
  cases language <;> decide

end Language

namespace Environment

variable {env : Environment} {dir path : Path} {here below : Location} {language : Language}

/-- A file has one of the extensions of a language. -/
def IsWrittenIn (language : Language) (location : Location) : Prop :=
  ∃ extension ∈ language.extensions, HasExtension extension location

/-- The language of what is listed is told by the name of the file. -/
theorem ofPath?_eq_some_iff {data : FileData} (proper : env.ProperNames)
    (leads : env.LeadsTo dir here) (hfile : env.look (here ++ below) = some (.file data)) :
    Language.ofPath? (dir.extend below) = some language ↔ IsWrittenIn language (here ++ below) := by
  have hnames := proper _ _ hfile
  obtain ⟨before, name, hend, hlanguage⟩ :=
    language_of_listed (fun name hm => hnames name (List.mem_append_right _ hm)) leads hfile
  have hname : IsFileName name := hnames name (hend ▸ List.mem_append_right _ List.mem_cons_self)
  rw [hlanguage, hend]
  constructor
  · intro h
    obtain ⟨extension, hextension, hof⟩ := Option.bind_eq_some_iff.1 h
    refine ⟨extension, Language.ofExtension?_eq_some_iff.1 hof, before, (Path.splitName name).1,
      ⟨fun hm => hname.entry.segment (Path.mem_of_mem_stem hm), Path.stem_ne_nil hname.entry.nonempty⟩,
      ?_⟩
    have htext : name = (Path.splitName name).1 ++ "." ++ extension :=
      String.toList_inj.1 (by simp [Path.toList_of_splitName hextension])
    rw [← htext]
  · rintro ⟨extension, hm, hhas⟩
    have dot : '.' ∉ extension.toList := language.dot_notMem_extension extension hm
    rw [hhas.splitName dot]
    exact Language.ofExtension?_eq_some_iff.2 hm

/-! ## The walk -/

/-- **The order of a listing** is that of paths. -/
theorem ascending_listFiles (proper : env.ProperNames) (dir : Path) :
    (env.listFiles dir).Pairwise (· < ·) := by
  rcases hlocate : env.locate dir with cause | ⟨here, data | children⟩
  · rw [listFiles, filesBelow, hlocate]
    exact List.Pairwise.nil
  · rw [listFiles, filesBelow, hlocate]
    exact List.pairwise_singleton _ _
  · have hordered : children.Ordered :=
      Forest.ordered_of_get? env.files.ordered (get?_of_locate hlocate)
    have hnames : ∀ below ∈ children.files.map (·.1), ∀ name ∈ below, IsFileName name := by
      intro below hm name hname
      obtain ⟨data, hfile⟩ := (mem_files_iff_look hlocate below).1 hm
      exact proper _ _ hfile name (List.mem_append_right _ hname)
    rw [listFiles_eq hlocate, List.pairwise_map]
    refine ((Forest.ascending_files hordered).filter _).imp_of_mem fun hfirst hsecond hlt => ?_
    exact Path.extend_lt (hnames _ (List.mem_filter.1 hfirst).1)
      (hnames _ (List.mem_filter.1 hsecond).1) hlt

/-- **The sources found**: none when the directory is missing; otherwise the files of the language
    below it in directories that are opened, each once and in the order of paths.  They are among
    what is listed there, and nothing is found for two languages. -/
theorem findSources_ascends (proper : env.ProperNames) (dir : Path) :
    (∀ cause, env.locate dir = .error cause → ∀ language, findSources env dir language = []) ∧
    (∀ language path, path ∈ findSources env dir language ↔
      ∃ here below data, env.LeadsTo dir here ∧ env.look (here ++ below) = some (.file data) ∧
        IsWrittenIn language (here ++ below) ∧ opens dir below.dropLast = true ∧
        path = dir.extend below) ∧
    (∀ language, (findSources env dir language).Nodup ∧
      (findSources env dir language).Pairwise (· < ·) ∧
      (findSources env dir language).Sublist (env.listFiles dir)) ∧
    (findSources env dir .kotlin).Disjoint (findSources env dir .java) := by
  have ascending : ∀ language, (findSources env dir language).Pairwise (· < ·) :=
    fun language => (ascending_listFiles proper dir).filter _
  refine ⟨fun cause missing language => ?_, fun language path => ?_, fun language => ?_, ?_⟩
  · rw [findSources, listFiles, filesBelow, missing]
    rfl
  · rw [mem_findSources_iff]
    constructor
    · rintro ⟨hlanguage, here, below, data, leads, hfile, rfl, hopens⟩
      have written := (ofPath?_eq_some_iff proper leads hfile).1 hlanguage
      exact ⟨here, below, data, leads, hfile, written, hopens, rfl⟩
    · rintro ⟨here, below, data, leads, hfile, written, hopens, rfl⟩
      have hlanguage := (ofPath?_eq_some_iff proper leads hfile).2 written
      exact ⟨hlanguage, here, below, data, leads, hfile, rfl, hopens⟩
  · refine ⟨(ascending language).imp ?_, ascending language, List.filter_sublist⟩
    rintro path _ hlt rfl
    exact path.lt_irrefl hlt
  · intro path hkotlin hjava
    have hkotlin := (mem_findSources_iff.1 hkotlin).1
    rw [(mem_findSources_iff.1 hjava).1] at hkotlin
    cases hkotlin

/-- Directories and a file of which the names are prefixes of each other. -/
def neighbouringNames : Environment :=
  let file : Leaf := .file ⟨[], .plain⟩
  { (default : Environment) with
    files := FileTree.empty.insert ["p"] .directory |>.insert ["p", "a"] .directory
      |>.insert ["p", "a-b"] .directory |>.insert ["p", "a.kt"] file
      |>.insert ["p", "a", "x.kt"] file |>.insert ["p", "a", "B.java"] file
      |>.insert ["p", "a-b", "C.kts"] file |>.insert ["p", "a-b", "notes.txt"] file }

theorem neighbouringNames_ascend :
    neighbouringNames.ProperNames ∧
      findSources neighbouringNames ⟨"p"⟩ .kotlin =
        [⟨"p/a/x.kt"⟩, ⟨"p/a-b/C.kts"⟩, ⟨"p/a.kt"⟩] ∧
      findSources neighbouringNames ⟨"p"⟩ .java = [⟨"p/a/B.java"⟩] ∧
      (findSources neighbouringNames ⟨"p"⟩ .kotlin).Pairwise (· < ·) := by
  have proper : neighbouringNames.ProperNames := properNames_of_files (by decide +kernel)
  obtain ⟨-, -, ascends, -⟩ := findSources_ascends proper ⟨"p"⟩
  exact ⟨proper, by decide +kernel, by decide +kernel, (ascends .kotlin).2.1⟩

end Environment

/-! ## A directory too far away -/

/-- A forest at the end of directories in each other. -/
def Forest.within : Location → Forest → Forest
  | [], inner => inner
  | name :: rest, inner => .directory name (within rest inner) .nil

theorem Forest.ordered_within {inner : Forest} (ordered : inner.Ordered) (names : Location) :
    (within names inner).Ordered := by
  induction names with
  | nil => exact ordered
  | cons name rest ih => exact ⟨fun _ hm => absurd hm List.not_mem_nil, ih, trivial⟩

theorem Forest.files_within (names : Location) (inner : Forest) :
    (within names inner).files = inner.files.map fun found => (names ++ found.1, found.2) := by
  induction names with
  | nil => exact (List.map_id _).symm
  | cons name rest ih => simp [within, files, ih, Function.comp_def]

def distantNames : Location := List.replicate 73 (String.ofList (List.replicate 55 'd'))

/-- One source, below directories with long names. -/
def distantSource : Environment :=
  { (default : Environment) with
    files := ⟨.within (["home", "build"] ++ distantNames) (.file "A.kt" ⟨[], .plain⟩ .nil),
      Forest.ordered_within (show Forest.Ordered (.file "A.kt" ⟨[], .plain⟩ .nil) from
        ⟨fun _ hm => absurd hm List.not_mem_nil, trivial⟩) _⟩ }

namespace Environment

theorem isFileName_distantNames : ∀ name ∈ distantNames,
    IsFileName name ∧ Char.ofNat 0 ∉ name.toList := by
  intro name hm
  rw [List.eq_of_mem_replicate hm]
  decide +kernel

theorem files_distantSource : distantSource.files.root.files =
    [(["home", "build"] ++ (distantNames ++ ["A.kt"]), ⟨[], .plain⟩)] := by
  rw [← List.append_assoc]
  exact Forest.files_within _ _

theorem properNames_distantSource : distantSource.ProperNames := by
  refine properNames_of_files fun found hm name hname => ?_
  rw [files_distantSource] at hm
  obtain rfl := List.mem_singleton.1 hm
  rcases List.mem_append.1 hname with hname | hname
  · clear * - hname
    revert name
    decide
  · rcases List.mem_append.1 hname with hname | hname
    · exact (isFileName_distantNames name hname).1
    · obtain rfl := List.mem_singleton.1 hname
      decide

/-- The directory of the source is not opened. -/
theorem distantNames_closed : opens ⟨"/home/build"⟩ distantNames = false := by
  have long : maxPathOctets <
      (Path.mk "/home/build").text.utf8ByteSize + (distantNames.map (·.utf8ByteSize + 1)).sum := by
    rw [distantNames, List.map_replicate, List.sum_replicate_nat]
    decide +kernel
  rw [opens, pathFault_extend (by decide) (by decide)
    (fun name hm => (isFileName_distantNames name hm).1)
    (fun name hm => (isFileName_distantNames name hm).2), if_pos long]
  rfl

/-- There is a file of the language below a directory that is not found there: the path of the
    directory it is in is longer than the system takes. -/
theorem distantSource_missed :
    distantSource.ProperNames ∧ distantSource.LeadsTo ⟨"/home/build"⟩ ["home", "build"] ∧
      distantSource.look (["home", "build"] ++ (distantNames ++ ["A.kt"])) =
        some (.file ⟨[], .plain⟩) ∧
      IsWrittenIn .kotlin (["home", "build"] ++ (distantNames ++ ["A.kt"])) ∧
      findSources distantSource ⟨"/home/build"⟩ .kotlin = [] := by
  have hlocate : distantSource.locate ⟨"/home/build"⟩ = .ok (["home", "build"],
      .directory (.within distantNames (.file "A.kt" ⟨[], .plain⟩ .nil))) := rfl
  refine ⟨properNames_distantSource, ⟨_, hlocate⟩, ?_, ?_, ?_⟩
  · have hm := List.mem_singleton_self
      (["home", "build"] ++ (distantNames ++ ["A.kt"]), (⟨[], .plain⟩ : FileData))
    rw [← files_distantSource] at hm
    have hlook := (Forest.mem_files_iff distantSource.files.ordered).1 hm
    exact hlook
  · refine ⟨"kt", List.mem_cons_self, ["home", "build"] ++ distantNames, "A", ?_, ?_⟩
    · exact Path.isEntry_of_plain (by decide)
    · rw [List.append_assoc]
      rfl
  · rw [findSources, listFiles_eq hlocate, Forest.files_within]
    simp [Forest.files, distantNames_closed]

end Environment

end KotlinHarness
