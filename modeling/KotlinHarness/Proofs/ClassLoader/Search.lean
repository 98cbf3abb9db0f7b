/-
  What class loaders find.

  A loader takes every answer of its parent but one, that the class was not found.  A loader with its
  parents is therefore one search through all their roots, those of the farthest parent first
  (`loadFrom_eq`), and the answer is told by the first file on the way (`findClass_iff`).

  The names of directories and of the file are the identifiers that a class name is made of.  None of
  them is more than the plain name of an entry, so what is looked at is below a root, whatever the
  name (`components_extend`), and two classes never share a file (`fileNames_inj`).
-/
import KotlinHarness.ClassLoader
import KotlinHarness.Proofs.Files.Listing

namespace KotlinHarness

/-! ## The octets of a class file -/

namespace ClassFile

variable {bytes : Bytes} {major : Nat}

theorem major?_eq_some_iff : major? bytes = some major ↔ ∃ minor minor' high low code,
    bytes = magic ++ minor :: minor' :: high :: low :: code ∧
      major = high.toNat * 256 + low.toNat := by
  constructor
  · intro h
    unfold major? at h
    split at h
    · next minor minor' high low code =>
      split at h
      · next hmagic =>
        rw [← hmagic]
        exact ⟨minor, minor', high, low, code, rfl, (Option.some.inj h).symm⟩
      · cases h
    · cases h
  · rintro ⟨minor, minor', high, low, code, rfl, rfl⟩
    rfl

theorem major?_eq_none_iff : major? bytes = none ↔ ¬ (8 ≤ bytes.length ∧ magic <+: bytes) := by
  rw [← not_iff_not, ← Ne, Option.ne_none_iff_exists', not_not]
  constructor
  · rintro ⟨major, h⟩
    obtain ⟨minor, minor', high, low, code, rfl, -⟩ := major?_eq_some_iff.1 h
    exact ⟨by simp [magic], List.prefix_append _ _⟩
  · rintro ⟨hlength, rest, rfl⟩
    rcases rest with - | ⟨a, - | ⟨b, - | ⟨c, - | ⟨d, rest⟩⟩⟩⟩
    -- Fewer than four octets after the mark are too few.
    iterate 4 simp [magic] at hlength
    exact ⟨_, rfl⟩

end ClassFile

/-! ## Below a path -/

/-- Where names that are read from a path start. -/
def Environment.StartsAt (env : Environment) (p : Path) (here : Location) : Prop :=
  if p.isEmpty then here = env.workingDirectory else env.LeadsTo p here

/-- Names read from the empty path are followed from the working directory. -/
theorem Environment.locate_empty_extend {env : Environment} {below : List String} (hne : below ≠ [])
    (h : ∀ name ∈ below, Path.IsEntry name)
    (fine : pathFault? ((Path.mk "").extend below) = none) :
    env.locate ((Path.mk "").extend below) = env.files.follow env.workingDirectory below := by
  rw [Path.empty_extend hne h] at fine ⊢
  rw [locate, fine]
  simp only
  rw [start, if_neg (by simp [Path.isAbsolute_ofSegments h]),
    Path.segments_ofSegments hne fun name hm => (h name hm).segment]

/-- Names read from any path lead straight down from there. -/
theorem Environment.location_of_extend {env : Environment} {p : Path} {below : List String}
    {location : Location} (hne : below ≠ []) (h : ∀ name ∈ below, IsFileName name)
    (leads : env.LeadsTo (p.extend below) location) :
    ∃ here, env.StartsAt p here ∧ location = here ++ below := by
  unfold StartsAt
  split
  · next hempty =>
    have hentry : ∀ name ∈ below, Path.IsEntry name := fun name hm => (h name hm).entry
    obtain rfl : p = ⟨""⟩ := congrArg Path.mk (String.isEmpty_iff.1 hempty)
    obtain ⟨node, hlocate⟩ := leads
    rw [locate_empty_extend hne hentry (follow_of_locate hlocate).1] at hlocate
    exact ⟨_, rfl, FileTree.location_of_follow (fun name hm => (h name hm).isName) hlocate⟩
  · next hfull => exact leadsTo_extend (Bool.eq_false_iff.2 hfull) h leads

namespace ClassLoader

open Environment

variable {env : Environment} {name other : String} {parts parts' : List String} {roots : List Path}
  {path : Path} {bytes : Bytes} {answer : Except ClassLoadError LoadedClass}

/-! ## Names of classes -/

/-- A class name is made of identifiers, with dots between them. -/
structure Spells (name : String) (parts : List String) : Prop where
  nonempty : parts ≠ []
  identifiers : ∀ part ∈ parts, isIdentifier part.toList = true
  dotted : name.toList = Text.joinWith ['.'] (parts.map String.toList)

theorem isIdentifierPart_of_isIdentifier {text : List Char} (h : isIdentifier text = true) :
    ∀ c ∈ text, isIdentifierPart c = true := by
  cases text with
  | nil => cases h
  | cons first rest =>
    rw [isIdentifier, Bool.and_eq_true] at h
    refine List.forall_mem_cons.2 ⟨?_, List.all_eq_true.1 h.2⟩
    have hstart := h.1
    rw [isIdentifierStart] at hstart
    rw [isIdentifierPart, Text.isAlphanumeric]
    simp only [Bool.or_eq_true] at hstart ⊢
    rcases hstart with (hletter | hline) | hdollar
    · exact .inl (.inl (.inl hletter))
    · exact .inl (.inr hline)
    · exact .inr hdollar

/-- A character that no identifier has. -/
theorem not_mem_of_isIdentifier {text : List Char} {c : Char} (h : isIdentifier text = true)
    (hc : isIdentifierPart c = false) : c ∉ text := by
  intro hm
  rw [isIdentifierPart_of_isIdentifier h c hm] at hc
  cases hc

theorem isEntry_of_isIdentifier {part : String} (h : isIdentifier part.toList = true) :
    Path.IsEntry part := by
  refine ⟨not_mem_of_isIdentifier h (by decide), ?_⟩
  rintro rfl
  cases h

theorem dot_of_isIdentifier {part : String} (h : isIdentifier part.toList = true) :
    '.' ∉ part.toList :=
  not_mem_of_isIdentifier h (by decide)

theorem nameParts?_eq_some_iff : nameParts? name = some parts ↔ Spells name parts := by
  simp only [nameParts?, Option.ite_none_right_eq_some, Option.some.injEq]
  constructor
  · rintro ⟨hall, rfl⟩
    refine ⟨?_, fun part hm => ?_, ?_⟩
    · exact fun hnil => Text.splitWhere_ne_nil _ _ (List.map_eq_nil_iff.1 hnil)
    · obtain ⟨piece, hpiece, rfl⟩ := List.mem_map.1 hm
      rw [String.toList_ofList]
      exact List.all_eq_true.1 hall piece hpiece
    · simp [List.map_map, Function.comp_def, Text.joinWith_splitOn]
  · intro h
    have hsplit : Text.splitOn '.' name.toList = parts.map String.toList := by
      rw [h.dotted]
      refine Text.splitOn_joinWith (fun hnil => h.nonempty (List.map_eq_nil_iff.1 hnil)) ?_
      intro piece hm
      obtain ⟨part, hpart, rfl⟩ := List.mem_map.1 hm
      exact dot_of_isIdentifier (h.identifiers part hpart)
    rw [hsplit]
    refine ⟨List.all_eq_true.2 fun piece hm => ?_, by simp [List.map_map, Function.comp_def]⟩
    obtain ⟨part, hpart, rfl⟩ := List.mem_map.1 hm
    exact h.identifiers part hpart

theorem Spells.unique (h : Spells name parts) (h' : Spells name parts') : parts = parts' :=
  Option.some.inj ((nameParts?_eq_some_iff.2 h).symm.trans (nameParts?_eq_some_iff.2 h'))

/-! ## Files of classes -/

/-- The names on the way to a class file: the last identifier has the extension put behind it. -/
def fileNames : List String → List String
  | [] => []
  | [last] => [last ++ "." ++ "class"]
  | part :: next :: rest => part :: fileNames (next :: rest)

theorem fileNames_concat (before : List String) (last : String) :
    fileNames (before ++ [last]) = before ++ [last ++ "." ++ "class"] := by
  induction before with
  | nil => rfl
  | cons part rest ih =>
    rw [List.cons_append, List.cons_append, ← ih]
    cases rest <;> rfl

theorem length_fileNames (parts : List String) : (fileNames parts).length = parts.length := by
  rcases List.eq_nil_or_concat' parts with rfl | ⟨before, last, rfl⟩
  · rfl
  · simp [fileNames_concat]

theorem fileNames_inj (h : fileNames parts = fileNames parts') : parts = parts' := by
  have hlength := congrArg List.length h
  rw [length_fileNames, length_fileNames] at hlength
  rcases List.eq_nil_or_concat' parts with rfl | ⟨before, last, rfl⟩
  · exact (List.eq_nil_of_length_eq_zero hlength.symm).symm
  · rcases List.eq_nil_or_concat' parts' with rfl | ⟨before', last', rfl⟩
    · exact List.eq_nil_of_length_eq_zero hlength
    · rw [fileNames_concat, fileNames_concat] at h
      obtain ⟨rfl, hlast⟩ := List.append_inj' h rfl
      have htext := congrArg String.toList (List.singleton_inj.1 hlast)
      simp only [String.toList_append, List.append_left_inj] at htext
      rw [String.toList_inj.1 htext]

theorem isFileName_of_mem_fileNames (h : ∀ part ∈ parts, isIdentifier part.toList = true) :
    ∀ entry ∈ fileNames parts, IsFileName entry := by
  rcases List.eq_nil_or_concat' parts with rfl | ⟨before, last, rfl⟩
  · exact fun entry hm => absurd hm List.not_mem_nil
  · rw [fileNames_concat]
    intro entry hm
    rcases List.mem_append.1 hm with hm | hm
    · have hentry := h entry (List.mem_append_left _ hm)
      exact isFileName_of_dot (isEntry_of_isIdentifier hentry) (dot_of_isIdentifier hentry)
    · rw [List.mem_singleton.1 hm]
      exact isFileName_extension (isEntry_of_isIdentifier (h last (by simp)))
        (Path.isEntry_of_plain (by decide))

/-- The file of a class, as its name is read. -/
theorem classFile?_eq_some_iff {file : Path} :
    classFile? name = some file ↔
      ∃ parts, Spells name parts ∧ file = (⟨""⟩ : Path).extend (fileNames parts) := by
  rw [classFile?, Option.map_eq_some_iff]
  refine exists_congr fun parts => ?_
  rw [nameParts?_eq_some_iff]
  refine and_congr_right fun h => ?_
  obtain ⟨before, last, rfl⟩ : ∃ before last, parts = before ++ [last] := by
    rcases List.eq_nil_or_concat' parts with hnil | hlast
    · exact absurd hnil h.nonempty
    · exact hlast
  have hlast := h.identifiers last (by simp)
  rw [fileNames_concat, Path.extend_concat, Path.extend_concat,
    Path.withExtension_div (isEntry_of_isIdentifier hlast) (dot_of_isIdentifier hlast)
      (Path.isEntry_of_plain (by decide)).segment]
  exact eq_comm

theorem classFile?_eq_none_iff : classFile? name = none ↔ ∀ parts, ¬ Spells name parts := by
  rw [Option.eq_none_iff_forall_ne_some]
  simp only [Ne, classFile?_eq_some_iff, not_exists, not_and]
  exact ⟨fun h parts hparts => h _ parts hparts rfl, fun h file parts hparts => absurd hparts (h parts)⟩

theorem fileNames_ne_nil (h : Spells name parts) : fileNames parts ≠ [] := by
  intro hnil
  have hlength := length_fileNames parts
  rw [hnil] at hlength
  exact h.nonempty (List.eq_nil_of_length_eq_zero hlength.symm)

/-- Below a root the file is found at the end of the names. -/
theorem join_file (h : Spells name parts) (root : Path) :
    root.join ((⟨""⟩ : Path).extend (fileNames parts)) = root.extend (fileNames parts) := by
  have hentry : ∀ entry ∈ fileNames parts, Path.IsEntry entry :=
    fun entry hm => (isFileName_of_mem_fileNames h.identifiers entry hm).entry
  rw [Path.empty_extend (fileNames_ne_nil h) hentry, Path.join_ofSegments (fileNames_ne_nil h) hentry]

/-! ## One search -/

theorem isFile_eq (p : Path) : env.isFile p = (env.read p).isOk := by
  rw [isFile, Environment.read]
  rcases env.locate p with cause | ⟨location, data | children⟩ <;> rfl

/-- The first root with a file decides. -/
structure FirstFile (env : Environment) (roots : List Path) (below : List String) (path : Path)
    (bytes : Bytes) : Prop where
  first : ∃ before root after, roots = before ++ root :: after ∧ path = root.extend below ∧
    ∀ other ∈ before, env.isFile (other.extend below) = false
  read : env.read path = .ok bytes

theorem FirstFile.find? {below : List String} (h : FirstFile env roots below path bytes) :
    (roots.map (·.extend below)).find? env.isFile = some path := by
  obtain ⟨before, root, after, rfl, rfl, hbefore⟩ := h.first
  rw [List.find?_eq_some_iff_append, isFile_eq, h.read]
  refine ⟨rfl, before.map (·.extend below), after.map (·.extend below), by simp, fun p hp => ?_⟩
  obtain ⟨other, hother, rfl⟩ := List.mem_map.1 hp
  rw [hbefore other hother]
  rfl

theorem firstFile_of_find? {below : List String}
    (h : (roots.map (·.extend below)).find? env.isFile = some path) :
    ∃ bytes, FirstFile env roots below path bytes := by
  obtain ⟨hfile, front, back, hsplit, hfront⟩ := List.find?_eq_some_iff_append.1 h
  obtain ⟨before, others, rfl, rfl, hothers⟩ := List.map_eq_append_iff.1 hsplit
  obtain ⟨root, after, rfl, rfl, -⟩ := List.map_eq_cons_iff.1 hothers
  have hread : ∃ bytes, env.read (root.extend below) = .ok bytes := by
    rw [isFile_eq] at hfile
    rcases hbytes : env.read (root.extend below) with cause | bytes
    · rw [hbytes] at hfile
      cases hfile
    · exact ⟨bytes, rfl⟩
  obtain ⟨bytes, hbytes⟩ := hread
  refine ⟨bytes, ⟨before, root, after, rfl, rfl, fun other hm => ?_⟩, hbytes⟩
  simpa using hfront _ (List.mem_map_of_mem hm)

/-- What a search through roots answers. -/
inductive Finds (env : Environment) (roots : List Path) (name : String) :
    Except ClassLoadError LoadedClass → Prop where
  | invalid (nameless : ∀ parts, ¬ Spells name parts) : Finds env roots name (.error (.invalidName name))
  | missing {parts : List String} (spelled : Spells name parts)
      (nowhere : ∀ root ∈ roots, env.isFile (root.extend (fileNames parts)) = false) :
      Finds env roots name (.error (.notFound name))
  | unmarked {parts : List String} {path : Path} {bytes : Bytes} (spelled : Spells name parts)
      (first : FirstFile env roots (fileNames parts) path bytes)
      (unmarked : ¬ (8 ≤ bytes.length ∧ ClassFile.magic <+: bytes)) :
      Finds env roots name (.error (.badMagic path))
  /-- The major version is in the seventh octet and the eighth, the high one first. -/
  | found {parts : List String} {path : Path} {minor minor' high low : UInt8} {code : Bytes}
      (spelled : Spells name parts)
      (first : FirstFile env roots (fileNames parts) path
        (ClassFile.magic ++ minor :: minor' :: high :: low :: code)) :
      Finds env roots name (.ok ⟨name, path,
        ClassFile.magic ++ minor :: minor' :: high :: low :: code, high.toNat * 256 + low.toNat⟩)

theorem findClass_of_spells (h : Spells name parts) :
    findClass env roots name =
      match (roots.map (·.extend (fileNames parts))).find? env.isFile with
      | none => .error (.notFound name)
      | some path =>
        match env.read path with
        | .ok bytes => readClass name path bytes
        | .error cause => .error (.unreadable path cause) := by
  rw [findClass, classFile?_eq_some_iff.2 ⟨parts, h, rfl⟩]
  rcases hfind : (roots.map (·.extend (fileNames parts))).find? env.isFile with - | path
  · simp only [join_file h, hfind]
  · rcases hread : env.read path with cause | bytes <;> simp only [join_file h, hfind, hread]

theorem finds_findClass (env : Environment) (roots : List Path) (name : String) :
    Finds env roots name (findClass env roots name) := by
  by_cases hspells : ∃ parts, Spells name parts
  · obtain ⟨parts, spelled⟩ := hspells
    rw [findClass_of_spells spelled]
    rcases hfind : (roots.map (·.extend (fileNames parts))).find? env.isFile with - | path
    · rw [hfind]
      refine .missing spelled fun root hm => ?_
      simpa using List.find?_eq_none.1 hfind _ (List.mem_map_of_mem hm)
    · obtain ⟨bytes, first⟩ := firstFile_of_find? hfind
      rw [hfind]
      simp only [first.read, readClass]
      split
      · next major hmajor =>
        obtain ⟨minor, minor', high, low, code, rfl, rfl⟩ := ClassFile.major?_eq_some_iff.1 hmajor
        exact .found spelled first
      · next hmajor => exact .unmarked spelled first (ClassFile.major?_eq_none_iff.1 hmajor)
  · have nameless := not_exists.1 hspells
    rw [findClass, classFile?_eq_none_iff.2 nameless]
    exact .invalid nameless

theorem Finds.eq_findClass (h : Finds env roots name answer) : findClass env roots name = answer := by
  cases h with
  | invalid nameless => rw [findClass, classFile?_eq_none_iff.2 nameless]
  | @missing parts spelled nowhere =>
    have hfind : (roots.map (·.extend (fileNames parts))).find? env.isFile = none := by
      rw [List.find?_eq_none]
      intro p hp
      obtain ⟨root, hm, rfl⟩ := List.mem_map.1 hp
      rw [nowhere root hm]
      exact Bool.false_ne_true
    rw [findClass_of_spells spelled, hfind]
  | unmarked spelled first unmarked =>
    rw [findClass_of_spells spelled, first.find?]
    simp only [first.read, readClass, ClassFile.major?_eq_none_iff.2 unmarked]
  | found spelled first =>
    rw [findClass_of_spells spelled, first.find?]
    simp only [first.read, readClass,
      ClassFile.major?_eq_some_iff.2 ⟨_, _, _, _, _, rfl, rfl⟩]

theorem findClass_iff : findClass env roots name = answer ↔ Finds env roots name answer :=
  ⟨fun h => h ▸ finds_findClass env roots name, Finds.eq_findClass⟩

/-- What roots have of a class, read alike at both places, is found alike. -/
theorem Finds.congr {old new : Environment} (alike : ∀ parts, Spells name parts → ∀ root ∈ roots,
      old.read (root.extend (fileNames parts)) = new.read (root.extend (fileNames parts)))
    (h : Finds old roots name answer) : Finds new roots name answer := by
  have hfile : ∀ {parts}, Spells name parts → ∀ root ∈ roots,
      old.isFile (root.extend (fileNames parts)) = false →
      new.isFile (root.extend (fileNames parts)) = false := by
    intro parts spelled root hm hold
    rwa [isFile_eq, ← alike parts spelled root hm, ← isFile_eq]
  have hfirst : ∀ {parts path bytes}, Spells name parts →
      FirstFile old roots (fileNames parts) path bytes →
      FirstFile new roots (fileNames parts) path bytes := by
    intro parts path bytes spelled first
    obtain ⟨⟨before, root, after, rfl, rfl, hbefore⟩, hread⟩ := first
    refine ⟨⟨before, root, after, rfl, rfl, fun other hm => ?_⟩, ?_⟩
    · exact hfile spelled other (List.mem_append_left _ hm) (hbefore other hm)
    · rw [← alike parts spelled root (by simp), hread]
  cases h with
  | invalid nameless => exact .invalid nameless
  | missing spelled nowhere => exact .missing spelled fun root hm => hfile spelled root hm (nowhere root hm)
  | unmarked spelled first unmarked => exact .unmarked spelled (hfirst spelled first) unmarked
  | found spelled first => exact .found spelled (hfirst spelled first)

/-! ## A loader and its parents -/

/-- Roots that are asked after others are asked when the others have no such class. -/
theorem findClass_append (env : Environment) (first second : List Path) (name : String) :
    findClass env (first ++ second) name =
      match findClass env first name with
      | .error (.notFound _) => findClass env second name
      | found => found := by
  rw [findClass, findClass, findClass]
  rcases classFile? name with - | file
  · rfl
  · simp only [List.map_append, List.find?_append]
    rcases hfind : (first.map (·.join file)).find? env.isFile with - | path <;> rw [hfind]
    · rfl
    · rw [Option.some_or]
      rcases hread : env.read path with cause | bytes
      · simp only [hread]
      · simp only [hread, readClass]
        cases ClassFile.major? bytes <;> rfl

/-- **A loader with its parents** is one search, the farthest parent first. -/
theorem loadFrom_eq (env : Environment) (name : String) (roots : List Path)
    (above : List (List Path)) :
    loadFrom env name roots above = findClass env (roots :: above).reverse.flatten name := by
  induction above generalizing roots with
  | nil =>
    rw [loadFrom, List.reverse_singleton, List.flatten_singleton]
  | cons parent above ih =>
    rw [@List.reverse_cons _ roots, List.flatten_append, List.flatten_singleton, loadFrom, ih parent]
    exact (findClass_append env _ roots name).symm

/-- All roots of a loader in the order in which they are asked. -/
def chain (loader : ClassLoader) : List Path := (loader.roots :: loader.ancestors).reverse.flatten

theorem load_eq (loader : ClassLoader) (env : Environment) (name : String) :
    loader.load env name = findClass env loader.chain name :=
  loadFrom_eq env name loader.roots loader.ancestors

/-- **What a loader answers** is told by the first file on the way, and by nothing else.

    The files that are looked at are below the roots, one name down for each identifier of the class
    name, and two class names never lead to one file. -/
theorem load_finds (loader : ClassLoader) (name : String) :
    (∀ env answer, loader.load env name = answer ↔ Finds env loader.chain name answer) ∧
    (∀ old new : Environment, (∀ parts, Spells name parts → ∀ root ∈ loader.chain,
        old.read (root.extend (fileNames parts)) = new.read (root.extend (fileNames parts))) →
      loader.load old name = loader.load new name) ∧
    (∀ parts, Spells name parts →
      (fileNames parts).length = parts.length ∧ (∀ entry ∈ fileNames parts, IsFileName entry) ∧
      ∀ root : Path,
        (root.extend (fileNames parts)).components =
          root.components ++ (fileNames parts).map .normal ∧
        ∀ (env : Environment) location, env.LeadsTo (root.extend (fileNames parts)) location →
          ∃ here, env.StartsAt root here ∧ location = here ++ fileNames parts) ∧
    (∀ other file file', classFile? name = some file → classFile? other = some file' →
      file.sameAs file' = true → name = other) := by
  refine ⟨fun env answer => ?_, fun old new alike => ?_, fun parts spelled => ?_, ?_⟩
  · rw [load_eq]
    exact findClass_iff
  · rw [load_eq, load_eq]
    exact (Finds.congr alike (finds_findClass old loader.chain name)).eq_findClass.symm
  · have hnames := isFileName_of_mem_fileNames spelled.identifiers
    refine ⟨length_fileNames parts, hnames, fun root => ⟨Path.components_extend hnames, ?_⟩⟩
    exact fun env location => location_of_extend (fileNames_ne_nil spelled) hnames
  · intro other file file' hfile hfile' hsame
    obtain ⟨parts, spelled, rfl⟩ := classFile?_eq_some_iff.1 hfile
    obtain ⟨parts', spelled', rfl⟩ := classFile?_eq_some_iff.1 hfile'
    rw [Path.sameAs, beq_iff_eq,
      Path.components_extend (isFileName_of_mem_fileNames spelled.identifiers),
      Path.components_extend (isFileName_of_mem_fileNames spelled'.identifiers)] at hsame
    have hnames := List.map_injective_iff.2 (fun a b h => Component.normal.inj h)
      (List.append_cancel_left hsame)
    rw [← String.toList_inj, spelled.dotted, spelled'.dotted, fileNames_inj hnames]

/-- A class below the roots of a loader and, with an older version, below those of its parent; the
    parent of that one has nothing. -/
def sharedClass : Environment :=
  let file (major : Nat) : Leaf := .file ⟨ClassFile.header major, .plain⟩
  { (default : Environment) with
    files := FileTree.empty.withDirectories ["classes", "x"] |>.withDirectories ["lib", "x"]
      |>.insert ["classes", "x", "Shared.class"] (file 52)
      |>.insert ["lib", "x", "Shared.class"] (file 50) }

theorem load_sharedClass :
    (⟨[⟨"classes"⟩], [[⟨"missing"⟩, ⟨"lib"⟩], [⟨"boot"⟩]]⟩ : ClassLoader).load sharedClass "x.Shared" =
      .ok ⟨"x.Shared", ⟨"lib/x/Shared.class"⟩, ClassFile.header 50, 50⟩ := by
  have spelled : Spells "x.Shared" ["x", "Shared"] := nameParts?_eq_some_iff.1 (by decide +kernel)
  refine ((load_finds ⟨[⟨"classes"⟩], [[⟨"missing"⟩, ⟨"lib"⟩], [⟨"boot"⟩]]⟩ "x.Shared").1
    sharedClass _).2 (.found spelled ⟨⟨[⟨"boot"⟩, ⟨"missing"⟩], ⟨"lib"⟩, [⟨"classes"⟩], rfl, ?_, ?_⟩, ?_⟩)
  all_goals decide +kernel

end ClassLoader

end KotlinHarness
