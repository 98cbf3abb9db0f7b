/-
  A tree of sources that is loaded, staged elsewhere and loaded again.

  Staging the units of a tree below an empty directory puts one file after the other at a new place.
  What is there after each of them is told by the files done so far: these, with their octets, and
  the directories above them (`Copied`).  In the end that is a tree with the same files in the same
  order, so the same units are loaded from it, and the sources of a language that are found in it are
  those that were staged (`tree_reloaded`).

    * `stage_copies`      one more file
    * `stageAll_copies`   all of them
-/
import KotlinHarness.Proofs.Files.Copied
import KotlinHarness.Proofs.Manifest.Loaded
import KotlinHarness.Proofs.Workspace.Restaged

namespace KotlinHarness

variable {env after : Environment} {target root : Path} {here there : Location}
  {tree children : Forest} {done rest : List (Location × FileData)} {found : Location × FileData}

/-! ## Files that are apart -/

namespace Forest

theorem names_nonempty (h : found ∈ tree.files) : found.1 ≠ [] := by
  obtain ⟨name, -, below, heq⟩ := head_of_mem_files h
  rw [heq]
  simp

/-- No file stands below another one. -/
theorem files_apart (ordered : tree.Ordered) {first second : Location × FileData}
    (hfirst : first ∈ tree.files) (hsecond : second ∈ tree.files) (honway : first.1 <+: second.1) :
    first.1 = second.1 := by
  obtain ⟨below, heq⟩ := honway
  by_contra hne
  have hbelow : below ≠ [] := by
    rintro rfl
    rw [List.append_nil] at heq
    exact hne heq
  have hfile := (mem_files_iff ordered).1 (show (first.1, first.2) ∈ tree.files from hfirst)
  have hdeep := (mem_files_iff ordered).1 (show (second.1, second.2) ∈ tree.files from hsecond)
  rw [← heq] at hdeep
  -- Above the one there is a directory, and there is the other.
  have hthere : FileTree.look ⟨tree, ordered⟩ (first.1 ++ below) ≠ none := by
    rw [show FileTree.look ⟨tree, ordered⟩ (first.1 ++ below) = _ from hdeep]
    simp
  have hdirectory := FileTree.look_of_look_append hbelow hthere
  rw [show FileTree.look ⟨tree, ordered⟩ first.1 = _ from hfile] at hdirectory
  cases hdirectory

/-- Nor below one that comes earlier in the order, or above it. -/
theorem apart_of_files (ordered : tree.Ordered) (hsplit : tree.files = done ++ found :: rest) :
    Apart done found.1 := by
  intro other hm
  have hnodup := nodup_files ordered
  rw [hsplit, List.pairwise_append] at hnodup
  have hne : other.1 ≠ found.1 := hnodup.2.2 other hm found List.mem_cons_self
  have hother : other ∈ tree.files := hsplit ▸ List.mem_append_left _ hm
  have hfound : found ∈ tree.files := hsplit ▸ List.mem_append_right _ List.mem_cons_self
  exact ⟨fun h => hne (files_apart ordered hother hfound h),
    fun h => hne (files_apart ordered hfound hother h).symm⟩

end Forest

/-! ## Staging -/

namespace SourceUnit

theorem encode_ofFile (h : (Text.decode? found.2.bytes).isSome = true) :
    Text.encode (ofFile found).content = found.2.bytes := by
  obtain ⟨text, htext⟩ := Option.isSome_iff_exists.1 h
  rw [ofFile, htext]
  exact Text.encode_of_decode? htext

/-- Where the unit of a file is staged. -/
theorem join_ofFile (hne : found.1 ≠ []) (fits : Environment.Fits found.1) :
    target.join (ofFile found).path = target.extend found.1 :=
  Path.join_ofSegments hne fun name hm => (fits.isFileName name hm).entry

/-- The unit of a file is staged at a new place. -/
theorem stage_copies (h : Copied target there done env) (hne : found.1 ≠ [])
    (fits : Environment.Fits found.1) (isText : (Text.decode? found.2.bytes).isSome = true)
    (fine : Environment.pathFault? (target.extend found.1) = none) (apart : Apart done found.1) :
    ∃ source after, (ofFile found).stage target env = .ok source after ∧
      Copied target there (done ++ [found]) after := by
  obtain ⟨after, hdeposit, copied, -⟩ :=
    h.deposit hne fits fine apart (encode_ofFile isText) .ifChanged
  refine ⟨⟨target.extend found.1, (ofFile found).language, .written⟩, after, ?_, copied⟩
  rw [stage, join_ofFile hne fits, bind_eq, EnvironmentAction.during, hdeposit]
  rfl

/-- All files of a tree are staged, one after the other. -/
theorem stageAll_copies (ordered : tree.Ordered) (hsplit : tree.files = done ++ rest)
    (h : Copied target there done env) (fits : ∀ found ∈ tree.files, Environment.Fits found.1)
    (isText : tree.IsText)
    (room : ∀ found ∈ tree.files, Environment.pathFault? (target.extend found.1) = none) :
    ∃ staged after, stageAll target (rest.map ofFile) env = .ok staged after ∧
      Copied target there tree.files after := by
  induction rest generalizing done env with
  | nil =>
    rw [List.append_nil] at hsplit
    exact ⟨[], env, rfl, hsplit ▸ h⟩
  | cons found rest ih =>
    have hfound : found ∈ tree.files := hsplit ▸ List.mem_append_right _ List.mem_cons_self
    obtain ⟨source, middle, hstage, hmiddle⟩ :=
      stage_copies h (Forest.names_nonempty hfound) (fits found hfound) (isText found hfound)
        (room found hfound) (Forest.apart_of_files ordered hsplit)
    have hnext : tree.files = done ++ [found] ++ rest := by
      rw [hsplit, List.append_assoc, List.singleton_append]
    obtain ⟨others, after, hothers, hafter⟩ := ih hnext hmiddle
    refine ⟨source :: others, after, ?_, hafter⟩
    rw [List.map_cons, stageAll, bind_eq, hstage]
    simp only
    rw [bind_eq, hothers]
    rfl

end SourceUnit

/-! ## Loading again -/

namespace Copied

/-- The files below the directory are those that were copied, in their order. -/
theorem places_eq (h : Copied target there tree.files after) (ordered : tree.Ordered)
    (hlocate : after.locate target = .ok (there, .directory children)) :
    children.files.map (·.1) = tree.files.map (·.1) := by
  have hordered : children.Ordered :=
    Forest.ordered_of_get? after.files.ordered (Environment.get?_of_locate hlocate)
  exact List.Pairwise.eq_of_mem_iff (Forest.ascending_files hordered)
    (Forest.ascending_files ordered) (h.mem_places_iff hlocate)

/-- So they make the same units. -/
theorem units_eq (h : Copied target there tree.files after) (ordered : tree.Ordered)
    (hlocate : after.locate target = .ok (there, .directory children)) :
    children.files.map SourceUnit.ofFile = tree.files.map SourceUnit.ofFile := by
  have hget := Environment.get?_of_locate hlocate
  have hordered : children.Ordered := Forest.ordered_of_get? after.files.ordered hget
  -- The unit at a place depends on the octets there.
  let unitAt (below : Location) : SourceUnit :=
    match after.look (there ++ below) with
    | some (.file data) => SourceUnit.ofFile (below, data)
    | some .directory => default
    | none => default
  have hchildren : ∀ found ∈ children.files, SourceUnit.ofFile found = unitAt found.1 := by
    intro found hm
    have hlook := (Forest.mem_files_iff hordered).1 (show (found.1, found.2) ∈ children.files from hm)
    rw [← Environment.look_append hget] at hlook
    simp only [unitAt, hlook]
  have htree : ∀ found ∈ tree.files, SourceUnit.ofFile found = unitAt found.1 := by
    intro found hm
    have hlook := (h.files found.1 _).2 ⟨found, hm, rfl, rfl⟩
    simp only [unitAt, hlook]
    rfl
  have hplaces := congrArg (List.map unitAt) (h.places_eq ordered hlocate)
  rw [List.map_map, List.map_map] at hplaces
  rw [List.map_congr_left hchildren, List.map_congr_left htree]
  exact hplaces

/-- And they can be loaded. -/
theorem loadable (h : Copied target there tree.files after) (ordered : tree.Ordered)
    (fits : ∀ found ∈ tree.files, Environment.Fits found.1)
    (room : ∀ found ∈ tree.files, Environment.pathFault? (target.extend found.1) = none)
    (hlocate : after.locate target = .ok (there, .directory children)) : children.Loadable target := by
  have hget := Environment.get?_of_locate hlocate
  have hordered : children.Ordered := Forest.ordered_of_get? after.files.ordered hget
  have nonempty : target.isEmpty = false :=
    Environment.LeadsTo.nonempty ⟨_, hlocate⟩
  rintro ⟨below, isDirectory⟩ hm
  -- Whatever is listed is a file or stands above one.
  obtain ⟨found, hfound, more, honway⟩ : ∃ found ∈ tree.files, below <+: found.1 := by
    cases isDirectory with
    | true =>
      have hlook := Forest.look_of_mem_listing hordered hm
      rw [← Environment.look_append hget] at hlook
      exact (h.directories below hlook).resolve_left (Forest.nonempty_of_mem_listing hm)
    | false =>
      have hplace : below ∈ children.files.map (·.1) := by
        rw [← Forest.places_listing]
        exact List.mem_filterMap.2 ⟨_, hm, rfl⟩
      rw [h.places_eq ordered hlocate] at hplace
      obtain ⟨found, hfound, rfl⟩ := List.mem_map.1 hplace
      exact ⟨found, hfound, List.prefix_refl _⟩
  have hfits := fits found hfound
  have hfine := room found hfound
  rw [← honway] at hfits hfine
  exact ⟨hfits.left, Environment.pathFault_of_extend nonempty hfits.isFileName hfine⟩

theorem isText (h : Copied target there tree.files after) (isText : tree.IsText)
    (hlocate : after.locate target = .ok (there, .directory children)) : children.IsText := by
  have hget := Environment.get?_of_locate hlocate
  have hordered : children.Ordered := Forest.ordered_of_get? after.files.ordered hget
  intro found hm
  have hlook := (Forest.mem_files_iff hordered).1 (show (found.1, found.2) ∈ children.files from hm)
  rw [← Environment.look_append hget] at hlook
  obtain ⟨other, hother, -, hdata⟩ := (h.files found.1 found.2).1 hlook
  rw [hdata]
  exact isText other hother

/-- The sources of a language that are found are those that were staged. -/
theorem findSources_eq (h : Copied target there tree.files after) (ordered : tree.Ordered)
    (fits : ∀ found ∈ tree.files, Environment.Fits found.1)
    (room : ∀ found ∈ tree.files, Environment.pathFault? (target.extend found.1) = none)
    (hlocate : after.locate target = .ok (there, .directory children)) (language : Language) :
    findSources after target language =
      SourceUnit.pathsOf target language (tree.files.map SourceUnit.ofFile) := by
  -- The extension of the last name tells the language of both spellings.
  have hlanguage : ∀ found ∈ tree.files,
      Language.ofPath? (target.extend found.1) = (SourceUnit.ofFile found).language := by
    intro found hm
    have hne := Forest.names_nonempty hm
    obtain ⟨init, name, hnames⟩ : ∃ init name, found.1 = init ++ [name] :=
      ⟨_, _, (List.dropLast_append_getLast hne).symm⟩
    have hname := (fits found hm).isFileName name (by rw [hnames]; simp)
    rw [SourceUnit.ofFile, ← Path.empty_extend hne
      fun other hother => ((fits found hm).isFileName other hother).entry, hnames,
      Environment.ofPath?_extend hname, Environment.ofPath?_extend hname]
  have opened : ∀ below ∈ children.files.map (·.1),
      Environment.opens target below.dropLast = true := by
    intro below hm
    rw [h.places_eq ordered hlocate] at hm
    obtain ⟨found, hfound, rfl⟩ := List.mem_map.1 hm
    have nonempty := Environment.LeadsTo.nonempty ⟨_, hlocate⟩
    exact Environment.opens_dropLast nonempty (fits found hfound).isFileName (room found hfound)
  rw [findSources, Environment.listFiles_of_opens hlocate opened, h.places_eq ordered hlocate,
    SourceUnit.pathsOf, List.map_map, List.filter_map, List.filter_map, List.map_map]
  have hfilter : tree.files.filter
        ((fun path => decide (Language.ofPath? path = some language)) ∘
          (target.extend ∘ fun found => found.1)) =
      tree.files.filter
        ((fun unit : SourceUnit => decide (unit.language = some language)) ∘ SourceUnit.ofFile) :=
    List.filter_congr fun found hm => by
      simp only [Function.comp_apply, hlanguage found hm]
  rw [hfilter]
  refine List.map_congr_left fun found hm => ?_
  have hm := (List.mem_filter.1 hm).1
  exact (SourceUnit.join_ofFile (Forest.names_nonempty hm) (fits found hm)).symm

end Copied

/-- **A tree that is loaded, staged and loaded again**: a tree of text files is loaded, one unit for
    each file.  Staged below an empty directory, the same units are loaded from there, and the
    sources of a language found there are those that were staged, in staging order.  The paths have
    to be ones that the system takes. -/
theorem tree_reloaded (source : env.locate root = .ok (here, .directory tree))
    (loadable : tree.Loadable root) (isText : tree.IsText) :
    ∃ units, loadSources env root = .ok units ∧
      units.map (fun unit => (unit.path, Text.encode unit.content)) =
        tree.files.map (fun found => (Path.ofSegments found.1, found.2.bytes)) ∧
      ∀ target there, env.locate target = .ok (there, .directory .nil) →
        (∀ found ∈ tree.files, Environment.pathFault? (target.extend found.1) = none) →
        ∃ staged after,
          SourceUnit.stageAll target units env = .ok staged after ∧
          loadSources after target = .ok units ∧
          ∀ language, findSources after target language =
            StagedSource.ofLanguage language staged := by
  have ordered : tree.Ordered :=
    Forest.ordered_of_get? env.files.ordered (Environment.get?_of_locate source)
  have fits : ∀ found ∈ tree.files, Environment.Fits found.1 := by
    intro found hm
    have hplace : found.1 ∈ tree.listing.filterMap Forest.placeOf? := by
      rw [Forest.places_listing]
      exact List.mem_map_of_mem hm
    obtain ⟨⟨place, isDirectory⟩, hentry, heq⟩ := List.mem_filterMap.1 hplace
    cases isDirectory with
    | true => cases heq
    | false =>
      obtain rfl : place = found.1 := Option.some.inj heq
      exact (loadable _ hentry).1
  refine ⟨_, loadSources_eq source loadable isText, ?_, fun target there empty room => ?_⟩
  · rw [List.map_map]
    refine List.map_congr_left fun found hm => ?_
    rw [Function.comp_apply, SourceUnit.encode_ofFile (isText found hm)]
    rfl
  · obtain ⟨staged, after, hstaged, copied⟩ := SourceUnit.stageAll_copies ordered
      (List.nil_append _).symm (copied_nil empty) fits isText room
    obtain ⟨children, hlocate⟩ := copied.base
    refine ⟨staged, after, hstaged, ?_, fun language => ?_⟩
    · rw [loadSources_eq hlocate (copied.loadable ordered fits room hlocate)
        (copied.isText isText hlocate), copied.units_eq ordered hlocate]
    · rw [copied.findSources_eq ordered fits room hlocate, SourceUnit.ofLanguage_stageAll hstaged]

/-- Two sources and a resource, one of the sources and the resource in a directory of their own. -/
def twoSources : Forest :=
  .file "Main.kt" ⟨Text.encode "class Main", .plain⟩
    (.directory "a" (.file "B.java" ⟨Text.encode "class B {}", .plain⟩
      (.file "x.txt" ⟨Text.encode "ä", .plain⟩ .nil)) .nil)

/-- The sources, and an empty directory beside them. -/
def besideEmpty : Environment :=
  let file (text : String) : Leaf := .file ⟨Text.encode text, .plain⟩
  { (default : Environment) with
    files := FileTree.empty.insert ["t"] .directory |>.insert ["s"] .directory
      |>.insert ["s", "a"] .directory |>.insert ["s", "a", "B.java"] (file "class B {}")
      |>.insert ["s", "a", "x.txt"] (file "ä") |>.insert ["s", "Main.kt"] (file "class Main") }

theorem twoSources_reloaded :
    besideEmpty.locate ⟨"s"⟩ = .ok (["s"], .directory twoSources) ∧
      besideEmpty.locate ⟨"t"⟩ = .ok (["t"], .directory .nil) ∧
      ∃ units staged after,
        loadSources besideEmpty ⟨"s"⟩ = .ok units ∧
        units.map (fun unit => (unit.path, Text.encode unit.content)) =
          [(⟨"Main.kt"⟩, Text.encode "class Main"), (⟨"a/B.java"⟩, Text.encode "class B {}"),
            (⟨"a/x.txt"⟩, Text.encode "ä")] ∧
        SourceUnit.stageAll ⟨"t"⟩ units besideEmpty = .ok staged after ∧
        loadSources after ⟨"t"⟩ = .ok units ∧
        ∀ language, findSources after ⟨"t"⟩ language = StagedSource.ofLanguage language staged := by
  have source : besideEmpty.locate ⟨"s"⟩ = .ok (["s"], .directory twoSources) := rfl
  have empty : besideEmpty.locate ⟨"t"⟩ = .ok (["t"], .directory .nil) := rfl
  obtain ⟨units, hloaded, hunits, hreload⟩ :=
    tree_reloaded source (by decide +kernel) (by decide +kernel)
  obtain ⟨staged, after, hstaged, hagain, hfound⟩ := hreload ⟨"t"⟩ ["t"] empty (by decide +kernel)
  exact ⟨source, empty, units, staged, after, hloaded, hunits.trans (by decide +kernel), hstaged,
    hagain, hfound⟩

/-! ## A directory too deep -/

/-- Directories in each other, the last one empty. -/
def Forest.nested : Location → Forest
  | [] => .nil
  | name :: rest => .directory name (nested rest) .nil

theorem Forest.ordered_nested (names : Location) : (nested names).Ordered := by
  induction names with
  | nil => trivial
  | cons name rest ih => exact ⟨fun _ hm => absurd hm List.not_mem_nil, ih, trivial⟩

theorem Forest.get?_nested (names : Location) :
    (nested names).get? names = some (.directory .nil) := by
  induction names with
  | nil => rfl
  | cons name rest ih => rw [nested, get?, if_pos rfl, ih]

def oneSource : Forest := .file "Main.kt" ⟨Text.encode "class Main", .plain⟩ .nil

def deepNames : Location := List.replicate 44 (String.ofList (List.replicate 92 'd'))

/-- The directory whose path is short enough, but not by as much as the name of a file. -/
def deepTarget : Path := (Path.mk "t").extend deepNames

/-- One source, and directories in each other beside it. -/
def besideDeep : Environment :=
  { (default : Environment) with
    files := ⟨.directory "s" oneSource (.directory "t" (.nested deepNames) .nil), by
      refine ⟨fun other hm => ?_, ⟨fun _ hm => absurd hm List.not_mem_nil, trivial⟩,
        fun _ hm => absurd hm List.not_mem_nil, Forest.ordered_nested _, trivial⟩
      rw [List.mem_singleton.1 hm]
      decide⟩ }

theorem fits_deepNames : ∀ name ∈ deepNames,
    (Environment.IsFileName name ∧ name.utf8ByteSize ≤ maxNameOctets) ∧
      Char.ofNat 0 ∉ name.toList := by
  intro name hm
  rw [List.eq_of_mem_replicate hm]
  decide +kernel

theorem size_deepNames : (deepNames.map (·.utf8ByteSize + 1)).sum = 44 * 93 := by
  have hsize : (String.ofList (List.replicate 92 'd')).utf8ByteSize = 92 := by decide +kernel
  rw [deepNames, List.map_replicate, List.sum_replicate_nat, hsize]

theorem locate_deepTarget :
    besideDeep.locate deepTarget = .ok ("t" :: deepNames, .directory .nil) := by
  have hbase : besideDeep.locate ⟨"t"⟩ = .ok (["t"], .directory (.nested deepNames)) := rfl
  have fits : Environment.Fits deepNames := fun name hm => (fits_deepNames name hm).1
  have fine : Environment.pathFault? deepTarget = none := by
    rw [deepTarget, Environment.pathFault_extend (by decide) (by decide) fits.isFileName
      fun name hm => (fits_deepNames name hm).2, size_deepNames]
    decide
  rw [deepTarget, Environment.locate_extend hbase fits.isFileName fine]
  refine Environment.follow_there fits ?_
  show besideDeep.files.root.get? (["t"] ++ deepNames) = _
  rw [Forest.get?_append, show besideDeep.files.root.get? ["t"] = _ from
    Environment.get?_of_locate hbase]
  exact Forest.get?_nested deepNames

theorem deepTarget_fault : Environment.pathFault? (deepTarget.extend ["Main.kt"]) ≠ none := by
  have hnames : ∀ name ∈ deepNames ++ ["Main.kt"],
      Environment.IsFileName name ∧ Char.ofNat 0 ∉ name.toList := by
    intro name hm
    rcases List.mem_append.1 hm with hm | hm
    · exact ⟨(fits_deepNames name hm).1.1, (fits_deepNames name hm).2⟩
    · rw [List.mem_singleton.1 hm]
      decide
  rw [deepTarget, ← Path.extend_append, Environment.pathFault_extend (by decide) (by decide)
    (fun name hm => (hnames name hm).1) (fun name hm => (hnames name hm).2), List.map_append,
    List.sum_append_nat, size_deepNames]
  decide

/-- There is an empty directory so deep that a file cannot be staged below it, although it is text
    and can be loaded: its path there would be longer than the system takes. -/
theorem deepTarget_refuses :
    besideDeep.locate ⟨"s"⟩ = .ok (["s"], .directory oneSource) ∧ oneSource.IsText ∧
      besideDeep.locate deepTarget = .ok ("t" :: deepNames, .directory .nil) ∧
      ∃ units cause after, loadSources besideDeep ⟨"s"⟩ = .ok units ∧
        SourceUnit.stageAll deepTarget units besideDeep = .error cause after := by
  have source : besideDeep.locate ⟨"s"⟩ = .ok (["s"], .directory oneSource) := rfl
  have isText : oneSource.IsText := by decide +kernel
  have hloaded := loadSources_eq source (by decide +kernel) isText
  rcases hstaged : SourceUnit.stageAll deepTarget (oneSource.files.map SourceUnit.ofFile) besideDeep
    with ⟨staged, after⟩ | ⟨cause, after⟩
  · -- The file would be there, at a path without fault.
    exfalso
    obtain ⟨_, _, _, -, hstage, -⟩ := SourceUnit.stageAll_cons hstaged
    obtain ⟨location, data, hlocate, -⟩ := SourceUnit.stage_file hstage
    rw [SourceUnit.join_ofFile (by simp) (by decide +kernel)] at hlocate
    exact deepTarget_fault (Environment.follow_of_locate hlocate).1
  · exact ⟨source, isText, locate_deepTarget, _, cause, after, hloaded, hstaged⟩

end KotlinHarness
