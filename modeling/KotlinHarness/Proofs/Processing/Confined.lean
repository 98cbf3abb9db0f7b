/-
  Where the file of a type may come to lie.

  The filer cuts the name of a type at its dots and reads the parts from the directory of the
  language.  A part may be any text without a dot, slashes included, and what matters is its first
  character: a part that starts with a slash is read from the root, whatever stands before it, so
  that the directories play no part (`place?_of_rooted`).  All other parts go down (`Descends`),
  and a file that is named with such parts only lies below the directory of its language
  (`Descends.leads_extend`).

  Either way the file that is created is the only one that changes (`create_laid`).
-/
import Mathlib.Data.List.TakeWhile
import KotlinHarness.Proofs.ClassLoader.Search
import KotlinHarness.Proofs.Processing.Generated

namespace KotlinHarness

namespace Environment

variable {env : Environment} {p q : Path} {location : Location}

/-! ## Paths that go down -/

/-- Where a path leads can be looked up. -/
instance (env : Environment) (p : Path) (location : Location) :
    Decidable (env.LeadsTo p location) :=
  decidable_of_iff ((env.locate p).toOption.map Prod.fst = some location) <| by
    unfold LeadsTo
    rcases env.locate p with cause | ⟨found, node⟩ <;> simp [Except.toOption]

instance (env : Environment) (p : Path) (here : Location) : Decidable (env.StartsAt p here) :=
  inferInstanceAs (Decidable (if p.isEmpty then _ else _))

theorem startsAt_iff (nonempty : p.isEmpty = false) :
    env.StartsAt p location ↔ env.LeadsTo p location := by
  rw [StartsAt, if_neg (by simp [nonempty])]

theorem startsAt_empty (empty : p.isEmpty = true) :
    env.StartsAt p location ↔ location = env.workingDirectory := by
  rw [StartsAt, if_pos empty]

theorem StartsAt.unique {other : Location} (h : env.StartsAt p location)
    (h' : env.StartsAt p other) : location = other := by
  by_cases empty : p.isEmpty = true
  · rw [startsAt_empty empty] at h h'
    rw [h, h']
  · rw [startsAt_iff (by simpa using empty)] at h h'
    exact h.unique h'

theorem names_of_isEmpty (empty : p.isEmpty = true) : p.names = [] := by
  rw [Path.isEmpty, String.isEmpty_iff] at empty
  rw [Path.names, Path.segments, empty]
  rfl

/-- A relative path whose names all go down. -/
structure Descends (p : Path) : Prop where
  relative : p.isAbsolute = false
  named : p.names ≠ []
  names : ∀ name ∈ p.names, IsFileName name

theorem Descends.names_join (h : Descends q) : (p.join q).names = p.names ++ q.names :=
  Path.names_join h.relative

theorem Descends.nonempty_join (h : Descends q) : (p.join q).isEmpty = false := by
  rw [← Bool.not_eq_true]
  intro empty
  have hnames := names_of_isEmpty empty
  rw [h.names_join] at hnames
  exact h.named (List.append_eq_nil_iff.1 hnames).2

theorem Descends.text_join (h : Descends q) : ∃ more, (p.join q).text = p.text ++ more := by
  rw [Path.join, if_neg (by simp [h.relative])]
  split
  · exact ⟨q.text, rfl⟩
  · exact ⟨"/" ++ q.text, String.append_assoc⟩

/-- Where a path starts that goes on from another one. -/
theorem Descends.start_join (h : Descends q) (empty : p.isEmpty = true) :
    env.start (p.join q) = env.workingDirectory := by
  have htext : p.text = "" := by rwa [Path.isEmpty, String.isEmpty_iff] at empty
  have hjoin : p.join q = q := by
    rw [Path.join, if_neg (by simp [h.relative]), if_pos (by simp [empty]), htext,
      String.empty_append]
  rw [hjoin, start, if_neg (by simp [h.relative])]

/-- The directory on the way is where the path before leads. -/
theorem Descends.leads_front (h : Descends q) {here : Location} {children : Forest}
    (nonempty : p.isEmpty = false) (fine : pathFault? (p.join q) = none)
    (hdir : env.files.follow (env.start (p.join q)) p.names = .ok (here, .directory children)) :
    env.LeadsTo p here := by
  obtain ⟨more, htext⟩ := h.text_join (p := p)
  refine ⟨.directory children, ?_⟩
  rw [locate, pathFault_of_append nonempty htext fine]
  simp only
  rw [start_of_append nonempty htext]
  exact FileTree.follow_of_filter hdir

/-- A path that goes down leads below the directory it is read from. -/
theorem Descends.leads_join (h : Descends q) (leads : env.LeadsTo (p.join q) location) :
    ∃ here, env.StartsAt p here ∧ location = here ++ q.names := by
  obtain ⟨node, hlocate⟩ := leads
  rw [locate] at hlocate
  split at hlocate
  · cases hlocate
  · next hfault =>
    have hwalk := FileTree.follow_filter hlocate
    rw [show (p.join q).segments.filter (! ·.isEmpty) = _ from h.names_join,
      FileTree.follow_append] at hwalk
    rcases hdir : env.files.follow (env.start (p.join q)) p.names with cause | ⟨here, found⟩
    · rw [hdir] at hwalk
      cases hwalk
    · rw [hdir] at hwalk
      simp only at hwalk
      refine ⟨here, ?_, FileTree.location_of_follow (fun name hm => (h.names name hm).isName) hwalk⟩
      by_cases empty : p.isEmpty = true
      · rw [names_of_isEmpty empty, FileTree.follow_nil, h.start_join empty] at hdir
        rw [startsAt_empty empty]
        split at hdir
        · cases hdir
          rfl
        · cases hdir
      · have nonempty : p.isEmpty = false := by simpa using empty
        -- There are names to go down, so the way to them ended in a directory.
        obtain ⟨name, rest, hname⟩ := List.exists_cons_of_ne_nil h.named
        rw [hname] at hwalk
        obtain ⟨children, hhere⟩ :=
          FileTree.look_directory_iff.1 (FileTree.directory_of_follow hwalk)
        rw [FileTree.get?_of_follow hdir, Option.some.injEq] at hhere
        rw [hhere] at hdir
        exact (startsAt_iff nonempty).2 (h.leads_front nonempty hfault hdir)

/-- So do paths that go down one after the other. -/
theorem Descends.leads_extend {parts : List String} (hne : parts ≠ [])
    (h : ∀ part ∈ parts, Descends ⟨part⟩) (leads : env.LeadsTo (p.extend parts) location) :
    ∃ here, env.StartsAt p here ∧
      location = here ++ parts.flatMap fun part => (Path.mk part).names := by
  induction parts using List.reverseRecOn generalizing location with
  | nil => exact absurd rfl hne
  | append_singleton before last ih =>
    have hlast := h last (List.mem_append_right _ List.mem_cons_self)
    rw [Path.extend_concat] at leads
    obtain ⟨middle, hmiddle, rfl⟩ := hlast.leads_join leads
    by_cases hbefore : before = []
    · subst hbefore
      exact ⟨middle, hmiddle, by simp⟩
    · -- What was read before the last part is no empty path.
      have nonempty : (p.extend before).isEmpty = false := by
        obtain ⟨front, part, hfront⟩ := (List.eq_nil_or_concat before).resolve_left hbefore
        rw [List.concat_eq_append] at hfront
        have hpart := h part (by simp [hfront])
        rw [hfront, Path.extend_concat]
        exact hpart.nonempty_join
      rw [startsAt_iff nonempty] at hmiddle
      obtain ⟨here, hhere, rfl⟩ :=
        ih hbefore (fun part hm => h part (List.mem_append_left _ hm)) hmiddle
      exact ⟨here, hhere, by simp⟩

/-- What goes down has names to go. -/
theorem Descends.flatMap_names {parts : List String} (hne : parts ≠ [])
    (h : ∀ part ∈ parts, Descends ⟨part⟩) :
    (parts.flatMap fun part => (Path.mk part).names) ≠ [] := by
  obtain ⟨part, rest, rfl⟩ := List.exists_cons_of_ne_nil hne
  rw [List.flatMap_cons]
  intro hnil
  exact (h part List.mem_cons_self).named (List.append_eq_nil_iff.1 hnil).1

end Environment

namespace Path

/-- What is read from an absolute path has forgotten where it was read from. -/
theorem extend_of_absolute (p other : Path) {parts : List String}
    (h : ∃ part ∈ parts, (Path.mk part).isAbsolute = true) :
    p.extend parts = other.extend parts := by
  obtain ⟨part, hm, habsolute⟩ := h
  obtain ⟨before, after, rfl⟩ := List.append_of_mem hm
  have hjoin : ∀ from' : Path, from' / part = ⟨part⟩ := fun from' => by
    show from'.join ⟨part⟩ = _
    rw [join, if_pos habsolute]
  rw [extend_append, extend_append, extend_cons, extend_cons, hjoin, hjoin]

end Path

namespace Filer

open Environment

variable {filer : Filer} {language : Language} {name part : String} {parts : List String}

/-! ## The parts of a name -/

/-- The part is read from the root. -/
def IsRooted (part : String) : Prop := (Path.mk part).isAbsolute = true

instance (part : String) : Decidable (IsRooted part) := inferInstanceAs (Decidable (_ = true))

/-- What stands between the slashes of a part goes down. -/
theorem isFileName_of_mem_segments (hdot : '.' ∉ part.toList)
    (hm : name ∈ (Path.mk part).segments) (nonempty : name ≠ "") : IsFileName name := by
  refine isFileName_of_dot ⟨Path.isSegment_of_mem hm, nonempty⟩ ?_
  obtain ⟨piece, hpiece, rfl⟩ := List.mem_map.1 hm
  rw [String.toList_ofList]
  exact fun hc => hdot (Text.mem_of_mem_splitOn hpiece hc)

/-- A part that is not read from the root starts with a name. -/
theorem exists_first_segment (nonempty : part ≠ "") (relative : ¬ IsRooted part) :
    ∃ first rest, (Path.mk part).segments = first :: rest ∧ first ≠ "" := by
  obtain ⟨first, rest, hfirst⟩ := List.exists_cons_of_ne_nil (Path.segments_ne_nil ⟨part⟩)
  refine ⟨first, rest, hfirst, ?_⟩
  rintro rfl
  rcases rest with - | ⟨next, rest⟩
  · -- A path of one empty segment is empty.
    have hpath := Path.ofSegments_segments ⟨part⟩
    rw [hfirst] at hpath
    exact nonempty (congrArg Path.text hpath).symm
  · exact relative (Path.isAbsolute_iff_segments.2 ⟨next, rest, hfirst⟩)

theorem descends_of_part (nonempty : part ≠ "") (hdot : '.' ∉ part.toList)
    (relative : ¬ IsRooted part) : Descends ⟨part⟩ := by
  refine ⟨by simpa [IsRooted] using relative, ?_, ?_⟩
  · obtain ⟨first, rest, hfirst, hnamed⟩ := exists_first_segment nonempty relative
    rw [Path.names, hfirst, List.filter_cons_of_pos (by simpa using hnamed)]
    exact List.cons_ne_nil _ _
  · intro name hm
    obtain ⟨hm, hnamed⟩ := List.mem_filter.1 hm
    exact isFileName_of_mem_segments hdot hm (by simpa using hnamed)

/-- A part that is not read from the root has a last name. -/
theorem exists_splitLast (nonempty : part ≠ "") (hdot : '.' ∉ part.toList)
    (relative : ¬ IsRooted part) :
    ∃ before last, (Path.mk part).splitLast? = some (before, last) ∧ IsFileName last := by
  obtain ⟨first, rest, hfirst, hnamed⟩ := exists_first_segment nonempty relative
  have hbusy : Path.isIdle first = false :=
    (isFileName_of_mem_segments hdot (hfirst ▸ List.mem_cons_self) hnamed).isName.1
  rcases hlast : (Path.mk part).splitLast? with - | ⟨before, last⟩
  · -- Only a path without such a segment has no last name.
    rw [Path.splitLast?] at hlast
    split at hlast
    · next hdrop =>
      rw [List.dropWhile_eq_nil_iff] at hdrop
      have hidle := hdrop first (by simp [hfirst])
      rw [hbusy] at hidle
      cases hidle
    · cases hlast
  · obtain ⟨hidle, idle, hsegments⟩ := Path.segments_of_splitLast? hlast
    have hmem : last ∈ (Path.mk part).segments := by
      rw [hsegments]
      exact List.mem_append_right _ List.mem_cons_self
    refine ⟨before, last, rfl, isFileName_of_mem_segments hdot hmem ?_⟩
    rintro rfl
    cases hidle

theorem descends_withExtension (language : Language) (nonempty : part ≠ "")
    (hdot : '.' ∉ part.toList) (relative : ¬ IsRooted part) :
    Descends ((Path.mk part).withExtension language.extension) := by
  obtain ⟨before, last, hlast, hname⟩ := exists_splitLast nonempty hdot relative
  have hextension := language.isEntry_extension
  have hsegments := Path.segments_withExtension hlast hname.isName.2 hextension.segment
  obtain ⟨-, idle, hpart⟩ := Path.segments_of_splitLast? hlast
  have hstem : Path.IsEntry (Path.splitName last).1 :=
    ⟨fun hc => hname.entry.segment (Path.mem_of_mem_stem hc), Path.stem_ne_nil hname.entry.nonempty⟩
  have hwhole := isFileName_extension hstem hextension
  refine ⟨?_, ?_, ?_⟩
  · exact (Path.withExtension_join (p := ⟨""⟩) (by simpa [IsRooted] using relative) hlast
      hname.isName.2 hextension.segment).1
  · rw [Path.names, hsegments, List.filter_append,
      List.filter_cons_of_pos (by simp)]
    simp
  · intro name hm
    rw [Path.names, hsegments] at hm
    obtain ⟨hm, hnamed⟩ := List.mem_filter.1 hm
    rcases List.mem_append.1 hm with hm | hm
    · refine isFileName_of_mem_segments hdot ?_ (by simpa using hnamed)
      rw [hpart]
      exact List.mem_append_left _ hm
    · rw [List.mem_singleton.1 hm]
      exact hwhole

/-! ## The place of a file -/

/-- Without a part that is read from the root, the place is below the directory. -/
theorem place_descends (filer : Filer) (language : Language) (h : nameParts? name = some parts)
    (relative : ∀ part ∈ parts, ¬ IsRooted part) :
    ∃ below, below ≠ [] ∧ (∀ part ∈ below, Descends ⟨part⟩) ∧
      filer.place? language name = some ((filer.directory language).extend below) := by
  obtain ⟨before, last, rfl⟩ := (List.eq_nil_or_concat parts).resolve_left (parts_ne_nil h)
  rw [List.concat_eq_append] at h relative
  have hpart : ∀ part ∈ before ++ [last], part ≠ "" ∧ '.' ∉ part.toList := by
    intro part hm
    obtain ⟨hnonempty, hdot, -⟩ := of_mem_parts h hm
    exact ⟨hnonempty, hdot⟩
  obtain ⟨hnonempty, hdot⟩ := hpart last (by simp)
  have hrelative := relative last (by simp)
  obtain ⟨front, name', hlast, hname⟩ := exists_splitLast hnonempty hdot hrelative
  refine ⟨before ++ [((Path.mk last).withExtension language.extension).text], by simp, ?_, ?_⟩
  · intro part hm
    rcases List.mem_append.1 hm with hm | hm
    · obtain ⟨hnonempty, hdot⟩ := hpart part (List.mem_append_left _ hm)
      exact descends_of_part hnonempty hdot (relative part (List.mem_append_left _ hm))
    · rw [List.mem_singleton.1 hm]
      exact descends_withExtension language hnonempty hdot hrelative
  · rw [place?, h, Option.map_some, Path.extend_concat, Path.extend_concat]
    -- The extension is replaced in the last part before that part is read.
    show some (((filer.directory language).extend before).join ⟨last⟩ |>.withExtension _) = _
    rw [(Path.withExtension_join (by simpa [IsRooted] using hrelative) hlast hname.isName.2
      language.isEntry_extension.segment).2]
    rfl

/-- A part that is read from the root makes the place the same for all directories. -/
theorem place?_of_rooted (h : nameParts? name = some parts) (rooted : ∃ part ∈ parts, IsRooted part)
    (other : Filer) : other.place? language name = filer.place? language name := by
  rw [place?, place?, h, Option.map_some, Option.map_some,
    Path.extend_of_absolute (other.directory language) (filer.directory language) rooted]

/-! ## Creating a file -/

/-- What creating a file does, and where the file lies; `parts` are those of its name. -/
structure Laid (filer : Filer) (language : Language) (name content : String) (parts : List String)
    (path : Path) (old new : Environment) : Prop where
  /-- The file holds what it was created with. -/
  read : new.read path = .ok (Text.encode content)
  /-- No other file is created or changed. -/
  only : Grows (fun location _ => new.LeadsTo path location) old new
  /-- The file lies below the directory of the language. -/
  below : (∀ part ∈ parts, ¬ IsRooted part) → ∃ here below,
    new.StartsAt (filer.directory language) here ∧ below ≠ [] ∧ new.LeadsTo path (here ++ below)
  /-- Unless a part is read from the root: then every filer has the same place for it. -/
  elsewhere : (∃ part ∈ parts, IsRooted part) →
    ∀ other : Filer, other.place? language name = some path

/-- What is read as text is told by its octets. -/
theorem read_of_readText {env : Environment} {path : Path} {content : String}
    (h : env.readText path = .ok content) : env.read path = .ok (Text.encode content) := by
  rw [readText] at h
  split at h
  · next bytes hread =>
    split at h
    · next text hdecode =>
      cases h
      rw [hread, Text.encode_of_decode? hdecode]
    · cases h
  · cases h

theorem create_laid {content : String} {env after : Environment} {path : Path} {last : Filer}
    (h : filer.create language name content env = .ok (path, last) after) :
    ∃ parts, nameParts? name = some parts ∧
      filer.Laid language name content parts path env after := by
  obtain ⟨hnew, -, hdeposited⟩ := create_ok h
  have hplace := (newPlace_eq_ok_iff.1 hnew).1
  obtain ⟨parts, hparts, -⟩ := Option.map_eq_some_iff.1 hplace
  refine ⟨parts, hparts, read_of_readText hdeposited.readText, ?_, ?_, ?_⟩
  · exact hdeposited.grows.mono fun _ _ hmay => hmay.1
  · intro relative
    obtain ⟨below, hne, hbelow, hplace'⟩ :=
      place_descends filer language hparts relative
    rw [hplace, Option.some.injEq] at hplace'
    -- The file can be read, so the path leads somewhere.
    obtain ⟨location, data, -, hlocate, -⟩ := readable_iff.1 ⟨content, hdeposited.readText⟩
    have hleads : after.LeadsTo path location := ⟨_, hlocate⟩
    rw [hplace'] at hleads
    obtain ⟨here, hhere, rfl⟩ := Descends.leads_extend hne hbelow hleads
    rw [← hplace'] at hleads
    exact ⟨here, _, hhere, Descends.flatMap_names hne hbelow, hleads⟩
  · intro rooted other
    rw [place?_of_rooted hparts rooted other, hplace]

/-- A filer with a directory for each language, and the directory for Java is there. -/
def generating : Filer × Environment :=
  (start ⟨"/w/java"⟩ ⟨"/w/kotlin"⟩,
    { (default : Environment) with files := FileTree.empty.withDirectories ["w", "java"] })

theorem generating_laid : ∃ path last after,
    generating.1.create .java "p.A" "class A" generating.2 = .ok (path, last) after ∧
      ∃ parts, nameParts? "p.A" = some parts ∧
        generating.1.Laid .java "p.A" "class A" parts path generating.2 after := by
  have succeeds : succeedsWith (fun created _ => created.1 == ⟨"/w/java/p/A.java"⟩)
      (generating.1.create .java "p.A" "class A" generating.2) = true := by decide +kernel
  obtain ⟨⟨path, last⟩, after, hcreate, -⟩ := of_succeedsWith succeeds
  exact ⟨path, last, after, hcreate, create_laid hcreate⟩

/-- A name with a slash at its start takes its file out of the directory. -/
theorem not_confined : ¬ ∀ (filer : Filer) (language : Language) (name content : String)
    (env : Environment) (path : Path) (last : Filer) (after : Environment),
    filer.create language name content env = .ok (path, last) after →
      ∃ here below, after.StartsAt (filer.directory language) here ∧
        after.LeadsTo path (here ++ below) := by
  intro confined
  have escapes : succeedsWith (fun created after =>
        decide (after.LeadsTo created.1 ["etc", "A.java"] ∧
          after.StartsAt (generating.1.directory .java) ["w", "java"]))
      (generating.1.create .java "/etc/A" "class A" generating.2) = true := by decide +kernel
  obtain ⟨⟨path, last⟩, after, hcreate, hescapes⟩ := of_succeedsWith escapes
  obtain ⟨hfile, hdir⟩ := of_decide_eq_true hescapes
  obtain ⟨here, below, hhere, hleads⟩ := confined _ _ _ _ _ _ _ _ hcreate
  obtain rfl := hdir.unique hhere
  exact absurd (hfile.unique hleads) (by simp)

end Filer

end KotlinHarness
