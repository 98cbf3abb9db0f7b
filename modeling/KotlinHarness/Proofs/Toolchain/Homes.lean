/-
  Homes of a JDK: where one stands, how it is spelled, and the version that is read there.

  A tool of a JDK stands two levels below the home of that JDK, which makes the home a directory of
  the tree (`jdkRoot?`) however it is named.  The names of the files in it lead there from every
  path for the home that can be read (`fileAt?_extend`), so the version of a JDK depends on the
  directory and not on the spelling (`systemJdkVersion_of_starts`).

    * `spelling_eq`     the absolute spelling is read from the root name by name
    * `homeOfTool?_eq`  the home of a tool spells the directory two levels above
    * `root_of_javac`   the compiler in a home belongs to the JDK there
-/
import KotlinHarness.Proofs.ClassLoader.Search
import KotlinHarness.Proofs.Files.Digging
import KotlinHarness.Proofs.Files.Footprint
import KotlinHarness.Proofs.Files.Planting
import KotlinHarness.Proofs.Toolchain.ChildPaths

namespace KotlinHarness

namespace Environment

variable {env old new : Environment} {p home tool : Path} {place root : Location} {data : FileData}
  {name : String} {names others : List String}

/-! ## Files -/

/-- The file that a path leads to. -/
def fileAt? (env : Environment) (p : Path) : Option (Location × FileData) :=
  match env.locate p with
  | .ok (place, .file data) => some (place, data)
  | _ => none

/-- The file at a location. -/
def dataAt? (env : Environment) (place : Location) : Option FileData :=
  match env.look place with
  | some (.file data) => some data
  | _ => none

theorem fileAt?_eq_some_iff : env.fileAt? p = some (place, data) ↔
    env.LeadsTo p place ∧ env.look place = some (.file data) := by
  rw [← locate_file_iff, fileAt?]
  rcases env.locate p with cause | ⟨there, other | children⟩ <;> simp

theorem dataAt?_eq_some_iff : env.dataAt? place = some data ↔
    env.look place = some (.file data) := by
  rw [dataAt?]
  rcases env.look place with - | (other | -) <;> simp

theorem isFile_eq (env : Environment) (p : Path) : env.isFile p = (env.fileAt? p).isSome := by
  rw [isFile, fileAt?]
  rcases env.locate p with cause | ⟨there, other | children⟩ <;> rfl

theorem isRunnable_eq (env : Environment) (p : Path) : env.isRunnable p =
    (env.fileAt? p).any fun found => found.2.mode matches .executable _ := by
  rw [isRunnable, fileAt?]
  rcases env.locate p with cause | ⟨there, ⟨bytes, - | program⟩ | children⟩ <;> rfl

theorem programAt_ok_iff {program : Program} : env.programAt p = .ok program ↔
    ∃ place data, env.fileAt? p = some (place, data) ∧ data.mode = .executable (some program) := by
  rw [programAt, fileAt?]
  rcases env.locate p with cause | ⟨there, ⟨bytes, - | (- | found)⟩ | children⟩ <;> simp

/-- A cause for which the search goes on is not that of a runnable file. -/
theorem not_isRunnable_of_skipped {cause : IoError} (h : env.programAt p = .error cause)
    (skipped : isSkipped cause = true) : env.isRunnable p = false := by
  rw [programAt] at h
  rw [isRunnable]
  rcases hlocate : env.locate p with other | ⟨there, ⟨bytes, - | (- | found)⟩ | children⟩
  · rfl
  · rfl
  · rw [hlocate] at h
    cases h
    cases skipped
  · rw [hlocate] at h
    cases h
  · rfl

/-! ## Names read from a home -/

theorem pathFault_eq_none_iff : pathFault? p = none ↔ Char.ofNat 0 ∉ p.text.toList ∧
    p.isEmpty = false ∧ p.text.utf8ByteSize ≤ maxPathOctets := by
  rw [pathFault?]
  by_cases hnul : Char.ofNat 0 ∈ p.text.toList
  · simp [hnul]
  · rcases hempty : p.isEmpty <;> simp [hnul]

/-- What is read from the same path by shorter names has no fault either. -/
theorem pathFault_of_shorter (hne : names ≠ []) (hnames : ∀ name ∈ names, Path.IsEntry name)
    (hne' : others ≠ []) (hothers : ∀ name ∈ others, Path.IsEntry name)
    (hnul : Char.ofNat 0 ∉ (Path.ofSegments others).text.toList)
    (shorter : (Path.ofSegments others).text.utf8ByteSize ≤ (Path.ofSegments names).text.utf8ByteSize)
    (fine : pathFault? (p.extend names) = none) : pathFault? (p.extend others) = none := by
  rw [pathFault_eq_none_iff, Path.text_extend hne hnames, String.toList_append, List.mem_append,
    String.utf8ByteSize_append, not_or] at fine
  obtain ⟨⟨hstart, -⟩, -, hsize⟩ := fine
  obtain ⟨init, last, rfl⟩ : ∃ init last, others = init ++ [last] :=
    ⟨_, _, (List.dropLast_concat_getLast hne').symm⟩
  have hempty : (p.extend (init ++ [last])).isEmpty = false := by
    rw [Path.extend_concat]
    exact Path.isEmpty_div (hothers last (List.mem_append_right _ List.mem_cons_self))
  rw [pathFault_eq_none_iff, Path.text_extend hne' hothers, String.toList_append, List.mem_append,
    String.utf8ByteSize_append, not_or]
  exact ⟨⟨hstart, hnul⟩, hempty, by omega⟩

/-- Names are followed from where the path starts that they are read from. -/
theorem locate_extend_of_starts (starts : env.StartsAt p root)
    (hdirectory : env.look root = some .directory) (hne : names ≠ [])
    (hnames : ∀ name ∈ names, IsFileName name) (fine : pathFault? (p.extend names) = none) :
    env.locate (p.extend names) = env.files.follow root names := by
  have hentry : ∀ name ∈ names, Path.IsEntry name := fun name hm => (hnames name hm).entry
  rw [StartsAt] at starts
  split at starts
  · next hempty =>
    obtain rfl : p = ⟨""⟩ := congrArg Path.mk (String.isEmpty_iff.1 hempty)
    rw [locate_empty_extend hne hentry fine, starts]
  · obtain ⟨node, hlocate⟩ := starts
    obtain ⟨children, hget⟩ := FileTree.look_directory_iff.1 hdirectory
    rw [get?_of_locate hlocate] at hget
    cases hget
    exact locate_extend hlocate hnames fine

/-- What is read by names depends on where they are read from only. -/
theorem fileAt?_extend (starts : env.StartsAt p root) (hdirectory : env.look root = some .directory)
    (hne : names ≠ []) (fits : Fits names) (fine : pathFault? (p.extend names) = none) :
    env.fileAt? (p.extend names) = (env.dataAt? (root ++ names)).map (Prod.mk (root ++ names)) := by
  have hlocate := locate_extend_of_starts starts hdirectory hne fits.isFileName fine
  rw [fileAt?, hlocate]
  rcases hdata : env.dataAt? (root ++ names) with - | data
  · rcases hwalk : env.files.follow root names with cause | ⟨there, data | children⟩
    · rfl
    · have hthere := FileTree.location_of_follow (fun name hm => (fits name hm).1.isName) hwalk
      have hlook : env.look there = some (.file data) :=
        FileTree.look_file_iff.2 (FileTree.get?_of_follow hwalk)
      rw [hthere, ← dataAt?_eq_some_iff, hdata] at hlook
      cases hlook
    · rfl
  · have hget := FileTree.look_file_iff.1 (dataAt?_eq_some_iff.1 hdata)
    rw [follow_there fits hget]
    rfl

/-! ## Absolute spellings -/

/-- The absolute spelling is read from the root name by name. -/
theorem spelling_eq (h : ∀ name ∈ place, Path.IsEntry name) :
    spelling place = (Path.mk "/").extend place := by
  rcases place with - | ⟨first, rest⟩
  · rfl
  · have hjoin : ∀ (first : String) (rest : List String),
        String.join ((first :: rest).map ("/" ++ ·)) =
          "/" ++ (Path.ofSegments (first :: rest)).text := by
      intro first rest
      induction rest generalizing first with
      | nil => simp [String.join_cons, Path.ofSegments]
      | cons second rest ih =>
        rw [List.map_cons, String.join_cons, ih, Path.ofSegments, Path.ofSegments,
          String.intercalate_cons_cons, String.append_assoc]
        simp only [String.append_assoc]
    have htext := Path.text_extend (p := ⟨"/"⟩) (List.cons_ne_nil first rest) h
    rw [if_pos (by decide), ← hjoin] at htext
    exact congrArg Path.mk htext.symm

theorem parent?_spelling (h : ∀ other ∈ place ++ [name], IsFileName other) :
    (spelling (place ++ [name])).parent? = some (spelling place) := by
  have hentry : ∀ other ∈ place ++ [name], Path.IsEntry other := fun other hm => (h other hm).entry
  have hname : IsFileName name := h name (List.mem_append_right _ List.mem_cons_self)
  rw [spelling_eq hentry, spelling_eq fun other hm => hentry other (List.mem_append_left _ hm)]
  rcases List.eq_nil_or_concat place with rfl | ⟨init, last, rfl⟩
  · have hsegments : (Path.mk "/" / name).segments = [""] ++ [name] := by
      have htext : (Path.mk "/" / name).text.toList = [] ++ '/' :: name.toList := by
        rw [Path.text_div hname.entry.segment, if_pos (by decide), String.toList_append]
        rfl
      rw [Path.segments, htext, Text.splitOn_append_cons, Text.splitOn_of_not_mem hname.entry.segment]
      simp [Text.splitOn_of_not_mem]
    show (Path.mk "/" / name).parent? = _
    rw [Path.parent?, Path.splitLast?_of_segments hsegments hname.isName.1]
    rfl
  · rw [List.concat_eq_append]
    refine parent?_extend (h last ?_) hname
    rw [List.concat_eq_append]
    simp

/-- Where a path leads to has names that the system takes. -/
theorem fits_of_leadsTo (named : Fits env.workingDirectory) (h : env.LeadsTo p place) :
    Fits place := by
  intro name hm
  refine ⟨isFileName_of_leadsTo named.isFileName h name hm, ?_⟩
  obtain ⟨node, hlocate⟩ := h
  rcases mem_of_follow (follow_of_locate hlocate).2 name hm with hstart | ⟨-, -, hshort⟩
  · rw [start] at hstart
    split at hstart
    · exact absurd hstart List.not_mem_nil
    · exact (named name hstart).2
  · exact hshort

/-- The absolute spelling of a directory leads there. -/
theorem startsAt_spelling (fits : Fits root) (hdirectory : env.look root = some .directory)
    (fine : pathFault? (spelling root) = none) : env.StartsAt (spelling root) root := by
  have hroot : env.locate ⟨"/"⟩ = .ok ([], .directory env.files.root) := by
    have htop : env.files.get? [] = some (.directory env.files.root) := Forest.get?_nil _
    have hlook : env.files.look [] = some .directory := FileTree.look_directory_iff.2 ⟨_, htop⟩
    have hidle : ∀ segment ∈ ["", ""], Path.isIdle segment = true := by decide
    obtain ⟨children, hwalk⟩ := FileTree.follow_idle hidle hlook
    have hchildren := FileTree.get?_of_follow hwalk
    rw [htop] at hchildren
    cases hchildren
    exact hwalk
  obtain ⟨children, hget⟩ := FileTree.look_directory_iff.1 hdirectory
  have hspelling := spelling_eq fun name hm => (fits.isFileName name hm).entry
  rw [StartsAt, if_neg (by simp [nonempty_of_pathFault fine]), hspelling]
  rw [hspelling] at fine
  refine ⟨.directory children, ?_⟩
  rw [locate_extend hroot fits.isFileName fine]
  exact follow_there fits hget

/-! ## Running a program -/

/-- A name behind another one stands behind a slash. -/
theorem slash_mem_div (nonempty : p.isEmpty = false) (h : Path.IsSegment name) :
    '/' ∈ (p / name).text.toList := by
  rw [Path.text_div h]
  split
  · next hslash =>
    rw [nonempty, Bool.false_or, Path.endsWithSlash, beq_iff_eq] at hslash
    rw [String.toList_append]
    exact List.mem_append_left _ (List.mem_of_getLast? hslash)
  · simp [String.toList_append]

/-- A command without directory and variables of its own. -/
theorem spawn_eq (env : Environment) (p : Path) (args : List String) :
    env.spawn { program := p, arguments := args } =
      if isPassable p.text && args.all isPassable then
        (env.resolveProgram p).map fun program =>
          program.run ⟨args, env.currentDirectory.text, env.vars⟩
      else .error .nulInArgument := by
  have hpassable : isPassableCommand { program := p, arguments := args } =
      (isPassable p.text && args.all isPassable) := by simp [isPassableCommand]
  rw [spawn, hpassable]
  cases isPassable p.text && args.all isPassable
  · rfl
  · rw [inDirectory]
    rcases hresolve : env.resolveProgram p with cause | program <;>
      simp only [List.nil_append, hresolve] <;> rfl

/-! ## The version of a JDK -/

/-- The program in a file. -/
def programIn? (data : FileData) : Option Program :=
  match data.mode with
  | .executable program => program
  | .plain => none

/-- The version told by a `release` file, or else by what `java` prints. -/
def toldVersion? (env : Environment) (release java : Option FileData) : Option JavaVersion :=
  let written := release.bind fun data => (Text.decode? data.bytes).bind JavaVersion.ofReleaseFile?
  match written with
  | some version => some version
  | none => (java.bind programIn?).bind fun program =>
    JavaVersion.ofJavaOutput?
      (program.run ⟨["-version"], env.currentDirectory.text, env.vars⟩).text

/-- The version that can be read of the JDK in a directory. -/
def jdkVersionAt? (env : Environment) (root : Location) : Option JavaVersion :=
  env.toldVersion? (env.dataAt? (root ++ ["release"])) (env.dataAt? (root ++ ["bin", "java"]))

/-- The directory of the JDK that a tool belongs to, two levels above the tool. -/
def jdkRoot? (place : Location) : Option Location :=
  match place.reverse with
  | _ :: _ :: above => some above.reverse
  | _ => none

theorem jdkRoot?_append (root : Location) (directory name : String) :
    jdkRoot? (root ++ [directory, name]) = some root := by
  rw [jdkRoot?, List.reverse_append]
  simp

theorem eq_append_of_jdkRoot? (h : jdkRoot? place = some root) :
    ∃ directory name, place = root ++ [directory, name] := by
  rw [jdkRoot?] at h
  split at h
  · next name directory above hreverse =>
    cases h
    refine ⟨directory, name, ?_⟩
    rw [← List.reverse_reverse place, hreverse]
    simp
  · cases h

/-- Whether the JDK that a tool belongs to has the module system, as is assumed of an unknown one. -/
def isModularAt (env : Environment) (place : Location) : Bool :=
  ((jdkRoot? place).bind env.jdkVersionAt?).all (·.isModular)

end Environment

namespace Host

open Environment

variable {env : Environment} {home tool : Path} {root place : Location}

theorem releaseVersion?_eq (env : Environment) (home : Path) : releaseVersion? env home =
    ((env.fileAt? (home / "release")).map Prod.snd).bind fun data =>
      (Text.decode? data.bytes).bind JavaVersion.ofReleaseFile? := by
  rw [releaseVersion?, readText, Environment.read, fileAt?]
  rcases env.locate (home / "release") with cause | ⟨there, data | children⟩
  · rfl
  · simp only [Option.map_some, Option.bind_some]
    rcases Text.decode? data.bytes with - | text <;> rfl
  · rfl

theorem capture?_java (env : Environment) (home : Path) :
    env.capture? { program := home / "bin" / "java", arguments := ["-version"] } =
      (((env.fileAt? (home / "bin" / "java")).map Prod.snd).bind programIn?).map fun program =>
        (program.run ⟨["-version"], env.currentDirectory.text, env.vars⟩).text := by
  have hslash : '/' ∈ (home / "bin" / "java").text.toList :=
    slash_mem_div (Path.isEmpty_div (Path.isEntry_of_plain (by decide)))
      (Path.isEntry_of_plain (by decide)).segment
  generalize home / "bin" / "java" = java at hslash ⊢
  rw [capture?, spawn_eq, resolveProgram_of_slash hslash, programAt, fileAt?]
  by_cases hnul : Char.ofNat 0 ∈ java.text.toList
  · -- A path that cannot be handed to a child leads nowhere.
    have hlocate : env.locate java = .error .nulInPath := by
      rw [locate, pathFault?, if_pos (List.contains_iff_mem.2 hnul)]
    rw [hlocate]
    simp [isPassable, hnul]
  · have hpassable : (isPassable java.text && ["-version"].all isPassable) = true := by
      simp [isPassable, hnul]
    rw [if_pos hpassable]
    rcases env.locate java with cause | ⟨there, ⟨bytes, - | (- | found)⟩ | children⟩ <;> rfl

/-- What is read at a home depends on two files. -/
theorem systemJdkVersion_eq (env : Environment) (home : Path) : systemJdkVersion env home =
    env.toldVersion? ((env.fileAt? (home / "release")).map Prod.snd)
      ((env.fileAt? (home / "bin" / "java")).map Prod.snd) := by
  rw [systemJdkVersion, releaseVersion?_eq, capture?_java, toldVersion?]
  simp only [Option.bind_map]
  rfl

/-- The version of a JDK does not depend on the path for its home. -/
theorem systemJdkVersion_of_starts (starts : env.StartsAt home root)
    (hdirectory : env.look root = some .directory)
    (fine : pathFault? (home / "bin" / "javac") = none) :
    systemJdkVersion env home = env.jdkVersionAt? root := by
  have hjavac : ∀ name ∈ ["bin", "javac"], Path.IsEntry name :=
    fun name hm => ((by decide : Fits ["bin", "javac"]) name hm).1.entry
  have hread : ∀ names, names ≠ [] → Fits names →
      Char.ofNat 0 ∉ (Path.ofSegments names).text.toList →
      (Path.ofSegments names).text.utf8ByteSize ≤
        (Path.ofSegments ["bin", "javac"]).text.utf8ByteSize →
      (env.fileAt? (home.extend names)).map Prod.snd = env.dataAt? (root ++ names) := by
    intro names hne fits hnul hshort
    have hfine := pathFault_of_shorter (by simp) hjavac hne
      (fun name hm => (fits name hm).1.entry) hnul hshort fine
    rw [fileAt?_extend starts hdirectory hne fits hfine]
    simp
  have hrelease := hread ["release"] (by simp) (by decide) (by decide) (by decide)
  have hjava := hread ["bin", "java"] (by simp) (by decide) (by decide) (by decide)
  rw [systemJdkVersion_eq, jdkVersionAt?, ← hrelease, ← hjava]
  rfl

/-- A JDK whose compiler is there stands in a directory, and what is read of it for its version is
    found from there. -/
theorem root_of_javac {data : FileData} (h : env.fileAt? (home / "bin" / "javac") = some (place, data)) :
    ∃ root, place = root ++ ["bin", "javac"] ∧ systemJdkVersion env home = env.jdkVersionAt? root := by
  obtain ⟨hleads, hlook⟩ := fileAt?_eq_some_iff.1 h
  have hnames : ∀ name ∈ ["bin", "javac"], IsFileName name := by decide
  obtain ⟨root, hstarts, rfl⟩ := location_of_extend (p := home) (by simp) hnames hleads
  obtain ⟨node, hlocate⟩ := hleads
  have hdirectory : env.look root = some .directory := by
    have hthere : env.files.look (root ++ ["bin", "javac"]) ≠ none := by
      rw [show env.files.look (root ++ ["bin", "javac"]) = _ from hlook]
      simp
    exact FileTree.look_of_look_append (by simp) hthere
  exact ⟨root, rfl, systemJdkVersion_of_starts hstarts hdirectory (follow_of_locate hlocate).1⟩

/-- The home of a tool spells the directory two levels above it. -/
theorem homeOfTool?_eq (hleads : env.LeadsTo tool place) (hnames : ∀ name ∈ place, IsFileName name) :
    homeOfTool? env tool = (jdkRoot? place).map spelling := by
  obtain ⟨node, hlocate⟩ := hleads
  rw [homeOfTool?, canonical?, hlocate]
  simp only [Option.getD_some]
  rcases List.eq_nil_or_concat place with rfl | ⟨above, name, rfl⟩
  · rfl
  · rw [List.concat_eq_append] at hnames ⊢
    rw [parent?_spelling hnames, Option.bind_some]
    rcases List.eq_nil_or_concat above with rfl | ⟨root, directory, rfl⟩
    · rfl
    · rw [List.concat_eq_append] at hnames ⊢
      rw [parent?_spelling fun other hm => hnames other (List.mem_append_left _ hm),
        List.append_assoc, List.singleton_append, jdkRoot?_append]
      rfl

/-- The version at the spelled home of a tool is that of the JDK the tool belongs to. -/
theorem systemJdkVersion_spelling {data : FileData} (fits : Fits place)
    (hlook : env.look place = some (.file data)) (hroot : jdkRoot? place = some root)
    (fine : pathFault? (spelling root / "bin" / "javac") = none) :
    systemJdkVersion env (spelling root) = env.jdkVersionAt? root := by
  obtain ⟨directory, name, rfl⟩ := eq_append_of_jdkRoot? hroot
  have hdirectory : env.look root = some .directory := by
    have hthere : env.files.look (root ++ [directory, name]) ≠ none := by
      rw [show env.files.look (root ++ [directory, name]) = _ from hlook]
      simp
    exact FileTree.look_of_look_append (List.cons_ne_nil directory [name]) hthere
  have hspelled : pathFault? (spelling root) = none := by
    have hempty := Path.isEmpty_of_isAbsolute (isAbsolute_spelling root)
    have hbin : Path.IsEntry "bin" := Path.isEntry_of_plain (by decide)
    have hjavac : Path.IsEntry "javac" := Path.isEntry_of_plain (by decide)
    exact pathFault_of_div hempty hbin.segment
      (pathFault_of_div (Path.isEmpty_div hbin) hjavac.segment fine)
  exact systemJdkVersion_of_starts (startsAt_spelling fits.left hdirectory hspelled) hdirectory fine

end Host

end KotlinHarness
