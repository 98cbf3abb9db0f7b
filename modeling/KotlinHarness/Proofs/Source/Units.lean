/-
  Units and the names of the files that they become.

  The path of a unit is chosen when the unit is made: either its extension tells the language, or it is
  given the extension of the language that it is to have.  So where a unit of some language is staged
  and a file is found, the name of that file has an extension of the language (`language_of_built`),
  whatever the path looks like: with a slash at the end, of dots alone, or without a stem.
-/
import KotlinHarness.Proofs.Files.Footprint
import KotlinHarness.Source.Unit

namespace KotlinHarness

namespace SourceUnit

open Environment

variable {unit : SourceUnit} {language : Language} {env : Environment} {root : Path}
  {location : Location} {data : FileData}

/-- A unit that was made in one of the two ways that there are. -/
def IsBuilt (unit : SourceUnit) : Prop :=
  (∃ path content, ofPath path content = .ok unit) ∨
    ∃ language name content, ofName language name content = .ok unit

theorem ofPath_eq_ok {path : Path} {content : String} (h : ofPath path content = .ok unit) :
    unit.language = Language.ofPath? unit.path := by
  rw [ofPath] at h
  split at h <;> cases h
  rfl

theorem ofName_eq_ok {name content : String} (h : ofName language name content = .ok unit) :
    unit.language = some language ∧
      (Language.ofPath? unit.path = some language ∨
        unit.path = (Path.mk name).withExtension language.extension) := by
  simp only [ofName] at h
  split at h
  · cases h
    refine ⟨rfl, ?_⟩
    dsimp only
    split
    · next told => exact .inl told
    · exact .inr rfl
  · cases h

/-- The path of a name with an extension ends in a name with that extension, or in no name. -/
theorem splitName_withExtension {p : Path} {extension last : String} {before : List String}
    (entry : Path.IsEntry extension) (dot : '.' ∉ extension.toList)
    (h : (p.withExtension extension).segments = before ++ [last]) (isName : FileTree.IsName last) :
    (Path.splitName last).2 = some extension := by
  rw [Path.withExtension] at h
  split at h
  · next init name hsplit =>
    split at h
    · next hup =>
      rw [Path.splitLast?_of_segments h isName.1] at hsplit
      cases hsplit
      exact absurd hup isName.2
    · -- The extension is put behind the stem of the last component.
      obtain ⟨busy, idle, hsegments⟩ := Path.segments_of_splitLast? hsplit
      have hname : name ≠ "" := by
        rintro rfl
        cases busy
      have hstem := Path.stem_ne_nil hname
      have hsegment : ∀ segment ∈ init ++ [(Path.splitName name).1 ++ "." ++ extension],
          Path.IsSegment segment := by
        have hmember : ∀ segment ∈ init ++ name :: idle, Path.IsSegment segment :=
          fun segment hm => Path.isSegment_of_mem (hsegments ▸ hm)
        intro segment hm
        rcases List.mem_append.1 hm with hm | hm
        · exact hmember segment (List.mem_append_left _ hm)
        · rw [List.mem_singleton.1 hm]
          refine (isFileName_extension ⟨?_, hstem⟩ entry).entry.segment
          exact fun hslash => hmember name (by simp) (Path.mem_of_mem_stem hslash)
      rw [String.append_assoc, Path.ofSegments_concat_append, ← String.append_assoc,
        Path.segments_ofSegments (by simp) hsegment] at h
      obtain ⟨-, hlast⟩ := List.append_inj' h rfl
      rw [← List.singleton_inj.1 hlast, Path.splitName_append hstem dot]
  · next hidle =>
    rw [Path.splitLast?_of_segments h isName.1] at hidle
    cases hidle

/-- A file that a unit with a language is staged to has an extension of the language. -/
theorem language_of_built (built : unit.IsBuilt) (hlanguage : unit.language = some language)
    {before : List String} {last : String} (h : unit.path.segments = before ++ [last])
    (hlast : FileTree.IsName last) :
    (Path.splitName last).2.bind Language.ofExtension? = some language := by
  have told : Language.ofPath? unit.path = (Path.splitName last).2.bind Language.ofExtension? := by
    rw [Language.ofPath?, Path.extension?_of_segments h hlast.1 hlast.2]
  rcases built with ⟨path, content, hmade⟩ | ⟨other, name, content, hmade⟩
  · rw [← told, ← ofPath_eq_ok hmade, hlanguage]
  · obtain ⟨hother, hpath⟩ := ofName_eq_ok hmade
    obtain rfl : language = other := Option.some.inj (hlanguage.symm.trans hother)
    rcases hpath with hpath | hpath
    · rw [← told, hpath]
    · rw [hpath] at h
      rw [splitName_withExtension (by cases language <;> exact Path.isEntry_of_plain (by decide))
        (by cases language <;> decide) h hlast]
      exact Language.ofExtension?_extension language

/-- Java units have their extension at the end of their path. -/
theorem suffix_of_java (built : unit.IsBuilt) (hlanguage : unit.language = some .java)
    {before : List String} {last : String} (h : (root.join unit.path).segments = before ++ [last])
    (hlast : FileTree.IsName last) : ".java".toList <:+ (root.join unit.path).text.toList := by
  obtain ⟨base, hbase⟩ := Path.segments_join root unit.path
  have hunit : unit.path.segments = unit.path.segments.dropLast ++ [last] := by
    have hend := congrArg List.getLast? (hbase.symm.trans h)
    rw [List.getLast?_append_of_ne_nil _ unit.path.segments_ne_nil, List.getLast?_concat] at hend
    exact (List.dropLast_append_getLast? last hend).symm
  have htold := language_of_built built hlanguage hunit hlast
  obtain ⟨extension, hextension, hjava⟩ := Option.bind_eq_some_iff.1 htold
  obtain rfl : extension = "java" := by
    rw [Language.ofExtension?] at hjava
    split at hjava
    · cases hjava
    · split at hjava
      · assumption
      · cases hjava
  exact (Path.suffix_of_splitName hextension).trans (Path.text_of_segments h)

/-- No class file is where a unit with a language is staged. -/
theorem not_isClassFile_of_built (built : unit.IsBuilt) (hlanguage : unit.language = some language)
    (h : env.locate (root.join unit.path) = .ok (location, .file data)) : ¬ IsClassFile location := by
  obtain ⟨base, hbase⟩ := Path.segments_join root unit.path
  obtain ⟨before, last, hsegments⟩ := unit.path.exists_last_segment
  have hwalk := (follow_of_locate h).2
  rw [hbase, hsegments, ← List.append_assoc] at hwalk
  obtain ⟨hlast, above, rfl⟩ := FileTree.name_of_follow_file hwalk
  intro hclass
  have htold := language_of_built built hlanguage hsegments hlast
  rw [isClassFile_not_source hclass] at htold
  cases htold

end SourceUnit

end KotlinHarness
