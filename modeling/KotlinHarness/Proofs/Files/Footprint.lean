/-
  Files told apart by the ends of their names.

  What a compile call writes has one of three extensions, and which one tells who writes it: class
  files come from compilers, Kotlin files from processors, and Java files too, but only below the one
  directory for them.  So a file that some later part of a call may not change can be told by its
  name (`IsProduct`), and a second call finds in it what the first one found:

    * `settled_of_source`     a source that could be read holds the same where nothing but class
                              files is to come
    * `findSources_retraced`  the same sources are listed where no other ones are to come

  This holds as long as the names in the tree are those of a file system, and whatever is written
  keeps it so (`Reaches.wellNamed`).
-/
import KotlinHarness.Proofs.Files.Relisting
import KotlinHarness.Proofs.Files.Retracing

namespace KotlinHarness.Environment

variable {env final old middle new : Environment} {dir p : Path} {here location : Location}
  {before below : Location} {name extension : String} {language : Language}

/-! ## Extensions -/

/-- The last name of a location has the extension. -/
def HasExtension (extension : String) (location : Location) : Prop :=
  ∃ before stem, Path.IsEntry stem ∧ location = before ++ [stem ++ "." ++ extension]

theorem HasExtension.splitName (h : HasExtension extension (before ++ [name]))
    (dot : '.' ∉ extension.toList) : (Path.splitName name).2 = some extension := by
  obtain ⟨other, stem, hstem, heq⟩ := h
  obtain ⟨-, hname⟩ := List.append_inj' heq rfl
  cases hname
  rw [Path.splitName_append hstem.nonempty dot]

/-- The extension of a file below a directory tells its language. -/
theorem HasExtension.ofPath? (h : HasExtension extension (here ++ below)) (further : below ≠ [])
    (entry : Path.IsEntry extension) (dot : '.' ∉ extension.toList) :
    Language.ofPath? (dir.extend below) = Language.ofExtension? extension := by
  obtain ⟨init, name, rfl⟩ : ∃ init name, below = init ++ [name] :=
    ⟨_, _, (List.dropLast_concat_getLast further).symm⟩
  obtain ⟨before, stem, hstem, heq⟩ := h
  rw [← List.append_assoc] at heq
  obtain ⟨-, hname⟩ := List.append_inj' heq rfl
  cases hname
  rw [ofPath?_extend (isFileName_extension hstem entry), Path.splitName_append hstem.nonempty dot]
  rfl

/-- A class file. -/
def IsClassFile (location : Location) : Prop := HasExtension "class" location

/-- What may come to be once processors were called: class files, Kotlin files, and Java files below
    a directory. -/
def IsProduct (javaDir location : Location) : Prop :=
  IsClassFile location ∨ HasExtension "kt" location ∨
    HasExtension "java" location ∧ javaDir <+: location

theorem isClassFile_not_source (h : IsClassFile (before ++ [name])) :
    (Path.splitName name).2.bind Language.ofExtension? = none := by
  rw [h.splitName (by decide)]
  rfl

/-- No class file is listed for a language. -/
theorem isClassFile_not_listed (h : IsClassFile (here ++ below)) (further : below ≠ []) :
    Language.ofPath? (dir.extend below) ≠ some language := by
  rw [HasExtension.ofPath? h further (Path.isEntry_of_plain (by decide)) (by decide)]
  exact (Option.some_ne_none language).symm

/-- Java files that come to be are listed below the directory for them and nowhere else. -/
theorem isProduct_not_listed {javaDir : Location} (apart : ¬ javaDir <+: here ++ below)
    (further : below ≠ []) (listed : Language.ofPath? (dir.extend below) = some .java) :
    ¬ IsProduct javaDir (here ++ below) := by
  rintro (hclass | hkotlin | ⟨-, hprefix⟩)
  · exact isClassFile_not_listed hclass further listed
  · rw [hkotlin.ofPath? further (Path.isEntry_of_plain (by decide)) (by decide)] at listed
    cases listed
  · exact apart hprefix

/-! ## What both calls find -/

/-- Where a name read from a path leads, it is the last of the names. -/
theorem last_of_leadsTo_div (h : IsFileName name) (hleads : env.LeadsTo (p / name) location) :
    ∃ before, location = before ++ [name] := by
  obtain ⟨node, hlocate⟩ := hleads
  obtain ⟨base, hbase, -⟩ := Path.segments_div (p := p) h.entry.segment
  have hwalk := (follow_of_locate hlocate).2
  rw [hbase] at hwalk
  obtain ⟨before, _, -, -, heq⟩ := FileTree.follow_concat h.isName hwalk
  exact ⟨before, heq⟩

/-- A source that can be read ends in a name with the extension of its language. -/
theorem source_of_readable (hread : env.Readable p) (hlanguage : Language.ofPath? p = some language)
    (hleads : env.LeadsTo p location) :
    ∃ before name, location = before ++ [name] ∧
      (Path.splitName name).2.bind Language.ofExtension? = some language := by
  obtain ⟨other, data, _, hlocate, -⟩ := readable_iff.1 hread
  obtain ⟨hother, hlook⟩ := locate_file_iff.1 hlocate
  obtain rfl := hother.unique hleads
  have hnone : ∀ name ∈ ([] : List String), IsFileName name := fun _ hm => absurd hm List.not_mem_nil
  obtain ⟨before, name, heq, hname⟩ :=
    language_of_listed hnone hleads (by rwa [List.append_nil])
  exact ⟨before, name, by rwa [List.append_nil] at heq, hname.symm.trans hlanguage⟩

/-- A source that can be read is settled once only class files are to come. -/
theorem settled_of_source (h : Retraces final old new)
    (rest : Grows (fun location _ => IsClassFile location) old final)
    (hread : old.Readable p) (hlanguage : Language.ofPath? p = some language) :
    Settled old new p := by
  obtain ⟨location, data, text, hlocate, -⟩ := readable_iff.1 hread
  have hleads := (locate_file_iff.1 hlocate).1
  refine ⟨location, hleads, h.agreed rest fun _ hclass => ?_⟩
  obtain ⟨before, name, rfl, hname⟩ := source_of_readable hread hlanguage hleads
  rw [isClassFile_not_source hclass] at hname
  cases hname

/-- The same sources are listed, unless some of them are to come. -/
theorem findSources_retraced {may : Location → Prop} {children : Forest}
    (h : Retraces final old new) (rest : Grows (fun location _ => may location) old final)
    (hdir : old.locate dir = .ok (here, .directory children))
    (kept : ∀ below, below ≠ [] → Language.ofPath? (dir.extend below) = some language →
      ¬ may (here ++ below)) :
    findSources new dir language = findSources old dir language := by
  obtain ⟨children', hdir'⟩ := h.grows.locate_directory hdir
  refine (filter_listFiles_eq _ hdir hdir' fun below hkeep => ?_).symm
  constructor
  · rintro ⟨data, hold⟩
    exact h.grows.files hold
  · rintro ⟨data, hnew⟩
    obtain ⟨data, hfinal⟩ := h.into.files hnew
    rcases rest.changed hfinal with hold | hmay
    · exact ⟨data, hold⟩
    · -- What is listed is below the directory, which is no file.
      have further : below ≠ [] := by
        rintro rfl
        have hdirectory : final.look here = some .directory :=
          rest.directories (FileTree.look_directory_iff.2 ⟨children, get?_of_locate hdir⟩)
        rw [List.append_nil, hdirectory] at hfinal
        cases hfinal
      exact absurd hmay (kept below further (of_decide_eq_true hkeep))

/-! ## Names of a file system -/

/-- The names in the tree and on the way to the working directory are what a file system takes for
    names. -/
structure WellNamed (env : Environment) : Prop where
  files : env.ProperNames
  workingDirectory : ∀ name ∈ env.workingDirectory, IsFileName name

/-- A walk comes to nothing but the names it started with and those it followed. -/
theorem mem_of_follow {tree : FileTree} {segments : List String} {node : Node}
    (h : tree.follow here segments = .ok (location, node)) :
    ∀ name ∈ location, name ∈ here ∨
      name ∈ segments ∧ FileTree.IsName name ∧ name.utf8ByteSize ≤ maxNameOctets := by
  have walk := FileTree.walk_of_follow h
  clear h
  induction walk with
  | nil => exact fun _ hm => .inl hm
  | cons _ step _ ih =>
    intro name hm
    rcases ih name hm with hnext | hrest
    · cases step with
      | stay => exact .inl hnext
      | up => exact .inl (List.mem_of_mem_dropLast hnext)
      | down isName short =>
        refine (List.mem_append.1 hnext).imp_right fun hname => ?_
        rw [List.mem_singleton.1 hname]
        exact ⟨List.mem_cons_self, isName, short⟩
    · exact .inr ⟨List.mem_cons_of_mem _ hrest.1, hrest.2⟩

theorem isFileName_of_follow {tree : FileTree} {segments : List String} {node : Node}
    (hhere : ∀ name ∈ here, IsFileName name) (hsegments : ∀ name ∈ segments, Path.IsSegment name)
    (h : tree.follow here segments = .ok (location, node)) :
    ∀ name ∈ location, IsFileName name := by
  intro name hm
  rcases mem_of_follow h name hm with hhere' | ⟨hsegment, isName, -⟩
  · exact hhere name hhere'
  · refine ⟨⟨hsegments name hsegment, ?_⟩, isName⟩
    rintro rfl
    cases isName.1

theorem isFileName_of_leadsTo (workingDirectory : ∀ name ∈ env.workingDirectory, IsFileName name)
    (hleads : env.LeadsTo p location) : ∀ name ∈ location, IsFileName name := by
  obtain ⟨node, hlocate⟩ := hleads
  refine isFileName_of_follow ?_ (fun _ => Path.isSegment_of_mem) (follow_of_locate hlocate).2
  rw [start]
  split
  · exact fun _ hm => absurd hm List.not_mem_nil
  · exact workingDirectory

/-- Files came to be only where some path leads. -/
def Reaches (old new : Environment) : Prop :=
  Grows (fun location _ => ∃ p, new.LeadsTo p location) old new

theorem reaches_composes : Composes Reaches := by
  refine ⟨fun env => Grows.refl env, ?_⟩
  intro old middle new h h'
  refine Grows.trans (Grows.mono h ?_) h'
  rintro location data ⟨p, hleads⟩
  exact ⟨p, h'.leadsTo hleads⟩

theorem Reaches.grows (h : Reaches old new) : Grows (fun _ _ => True) old new :=
  Grows.mono h fun _ _ _ => trivial

theorem Reaches.wellNamed (h : Reaches old new) (named : old.WellNamed) : new.WellNamed := by
  have workingDirectory : ∀ name ∈ new.workingDirectory, IsFileName name := by
    rw [Grows.workingDirectory h]
    exact named.workingDirectory
  refine ⟨?_, workingDirectory⟩
  intro location data hlook
  rcases Grows.changed h hlook with hold | ⟨p, hleads⟩
  · exact named.files location data hold
  · exact isFileName_of_leadsTo workingDirectory hleads

theorem keeps_deposit (overwrite : Overwrite) (p : Path) (content : String) :
    Keeps Reaches (deposit overwrite p content) := by
  intro env
  rcases h : deposit overwrite p content env with ⟨done, after⟩ | ⟨cause, after⟩
  · exact (deposit_ok h).grows.mono fun _ _ hmay => ⟨p, hmay.1⟩
  · exact (deposit_error h).mono fun _ _ hmay => hmay.elim

end KotlinHarness.Environment
