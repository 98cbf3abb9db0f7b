/-
  The path of a unit that is given a name.

  A name keeps its spelling when its extension belongs to the language.  Otherwise the extension of
  the language is put behind the stem of the last component, and whatever stood behind the stem is
  gone: an extension of any other kind, slashes, and dots that are components of their own.  So the
  path is the name with the extension behind it only for a name that ends in a component without a
  dot, and names of dotted classes that differ in their last part alone share a path
  (`dotted_names_share`).

    * `staysBelow_iff`    which names are accepted
    * `withExtension_eq`  the new extension stands behind the stem
    * `ofName_path`       the path of a unit, and when two names have one path
-/
import KotlinHarness.Proofs.Source.Units

namespace KotlinHarness

namespace Path

variable {p : Path} {before : List String} {last extension stem : String}

/-- What an extension is put behind: the path up to the extension of its last component, if it has
    one. -/
def stem? (p : Path) : Option String :=
  p.splitLast?.map fun (before, last) => (ofSegments (before ++ [(splitName last).1])).text

theorem stem?_of_splitLast? (h : p.splitLast? = some (before, last)) :
    p.stem? = some (ofSegments (before ++ [(splitName last).1])).text := by
  rw [stem?, h]
  rfl

theorem stem?_eq_none_iff : p.stem? = none ↔ p.splitLast? = none := Option.map_eq_none_iff

/-- The new extension stands behind the stem; a path without a component stays. -/
theorem withExtension_eq (hup : ".." ∉ p.segments) (extension : String) :
    p.withExtension extension =
      match p.stem? with
      | some stem => ⟨stem ++ "." ++ extension⟩
      | none => p := by
  rcases hlast : p.splitLast? with - | ⟨before, last⟩
  · rw [stem?_eq_none_iff.2 hlast, withExtension, hlast]
  · obtain ⟨-, idle, hsegments⟩ := segments_of_splitLast? hlast
    have hne : last ≠ ".." := fun heq => hup (by simp [hsegments, heq])
    rw [stem?_of_splitLast? hlast, withExtension, hlast]
    exact if_neg hne

/-- A name that is not cut has no extension. -/
theorem splitName_of_none {name : String} (h : (splitName name).2 = none) :
    (splitName name).1 = name := by
  rw [splitName] at h ⊢
  split at h
  · rfl
  · rfl
  · cases h

/-- A path that ends in a component without extension is its own stem. -/
theorem stem?_of_bare (h : p.segments = before ++ [last]) (busy : isIdle last = false)
    (bare : (splitName last).2 = none) : p.stem? = some p.text := by
  rw [stem?_of_splitLast? (splitLast?_of_segments h busy), splitName_of_none bare, ← h,
    ofSegments_segments]

/-- A path without components of a name has no extension. -/
theorem extension?_of_stem? (h : p.stem? = none) : p.extension? = none := by
  rw [extension?, fileName?, stem?_eq_none_iff.1 h]
  rfl

end Path

namespace SourceUnit

variable {language : Language} {name other content content' : String} {unit unit' : SourceUnit}

/-! ## Accepted names -/

theorem isParent_mem_iff {p : Path} :
    Component.parent ∈ p.segments.filterMap Component.ofSegment? ↔ ".." ∈ p.segments := by
  rw [List.mem_filterMap]
  constructor
  · rintro ⟨segment, hm, hsegment⟩
    rw [Component.ofSegment?] at hsegment
    split at hsegment
    · cases hsegment
    · split at hsegment
      · next hup => rwa [hup] at hm
      · cases hsegment
  · exact fun hm => ⟨"..", hm, rfl⟩

/-- Nothing between slashes is read as the root. -/
theorem isPlain_of_ne_parent {p : Path} (hup : ".." ∉ p.segments) :
    ∀ component ∈ p.segments.filterMap Component.ofSegment?, component.isPlain = true := by
  intro component hm
  obtain ⟨segment, hsegment, hcomponent⟩ := List.mem_filterMap.1 hm
  rw [Component.ofSegment?] at hcomponent
  split at hcomponent
  · cases hcomponent
  · split at hcomponent
    · next heq => exact absurd (heq ▸ hsegment) hup
    · cases hcomponent
      rfl

/-- A path is accepted when it is relative, not empty, and never goes up. -/
theorem staysBelow_iff {p : Path} :
    staysBelow p = true ↔ p.isEmpty = false ∧ p.isAbsolute = false ∧ ".." ∉ p.segments := by
  rw [staysBelow, Bool.and_eq_true, Bool.not_eq_true', List.all_eq_true, Path.components]
  refine and_congr_right fun _ => ?_
  constructor
  · intro hplain
    refine ⟨?_, fun hup => ?_⟩
    · rw [← Bool.not_eq_true]
      intro habsolute
      rw [if_pos habsolute] at hplain
      exact absurd (hplain _ List.mem_cons_self) (by decide)
    · have hparent := isParent_mem_iff.2 hup
      have hfalse : Component.parent.isPlain = true := by
        refine hplain _ ?_
        split
        · exact List.mem_cons_of_mem _ hparent
        · split
          · exact List.mem_cons_of_mem _ hparent
          · exact hparent
      exact absurd hfalse (by decide)
  · rintro ⟨hrelative, hup⟩
    have hbody := isPlain_of_ne_parent hup
    rw [if_neg (by simp [hrelative])]
    split
    · exact List.forall_mem_cons.2 ⟨rfl, hbody⟩
    · exact hbody

/-- What a unit made of a name is. -/
theorem ofName_ok (h : ofName language name content = .ok unit) :
    staysBelow ⟨name⟩ = true ∧ unit.content = content ∧ unit.language = some language ∧
      unit.path = if Language.ofPath? ⟨name⟩ = some language then ⟨name⟩
        else (Path.mk name).withExtension language.extension := by
  simp only [ofName] at h
  split at h
  · next hbelow =>
    cases h
    exact ⟨hbelow, rfl, rfl, rfl⟩
  · cases h

/-! ## Paths -/

/-- A name with an extension of the language has a stem. -/
theorem stem?_of_language {p : Path} (h : Language.ofPath? p = some language) : p.stem? ≠ none := by
  intro hnone
  rw [Language.ofPath?, Path.extension?_of_stem? hnone] at h
  cases h

/-- The last component of a path that is made of a name with a stem. -/
theorem segments_of_stem (language : Language) {p : Path} {before : List String} {last : String}
    (hup : ".." ∉ p.segments) (h : p.splitLast? = some (before, last)) :
    (p.withExtension language.extension).segments =
        before ++ [(Path.splitName last).1 ++ "." ++ language.extension] ∧
      last ≠ ".." ∧ (Path.splitName last).1 ≠ "" ∧ Path.IsSegment language.extension ∧
      Environment.IsFileName ((Path.splitName last).1 ++ "." ++ language.extension) := by
  obtain ⟨busy, idle, hsegments⟩ := Path.segments_of_splitLast? h
  have hne : last ≠ ".." := fun heq => hup (by simp [hsegments, heq])
  have hsegment : Path.IsSegment last := Path.isSegment_of_mem (p := p) (by simp [hsegments])
  have hnonempty : last ≠ "" := by
    rintro rfl
    cases busy
  have hstem : Path.IsEntry (Path.splitName last).1 :=
    ⟨fun hc => hsegment (Path.mem_of_mem_stem hc), Path.stem_ne_nil hnonempty⟩
  have hentry : Path.IsEntry language.extension := by
    cases language <;> exact Path.isEntry_of_plain (by decide)
  exact ⟨Path.segments_withExtension h hne hentry.segment, hne, hstem.nonempty, hentry.segment,
    Environment.isFileName_extension hstem hentry⟩

/-- The path that is made of a name with a stem has an extension of the language. -/
theorem ofPath?_withExtension {p : Path} (hup : ".." ∉ p.segments) (h : p.stem? ≠ none) :
    Language.ofPath? (p.withExtension language.extension) = some language := by
  rcases hlast : p.splitLast? with - | ⟨before, last⟩
  · exact absurd (Path.stem?_eq_none_iff.2 hlast) h
  · obtain ⟨hwhole, -, hstem, -, hname⟩ := segments_of_stem language hup hlast
    rw [Language.ofPath?, Path.extension?_of_segments hwhole hname.isName.1 hname.isName.2,
      Path.splitName_append hstem (by cases language <;> decide)]
    exact Language.ofExtension?_extension language

/-- What becomes of a name. -/
structure Named (language : Language) (name : String) (path : Path) : Prop where
  /-- A name with an extension of the language is the path. -/
  kept : Language.ofPath? ⟨name⟩ = some language → path = ⟨name⟩
  /-- Of any other name the stem is kept, with the extension of the language behind it. -/
  extended : Language.ofPath? ⟨name⟩ ≠ some language → ∀ stem, (Path.mk name).stem? = some stem →
    path = ⟨stem ++ "." ++ language.extension⟩
  /-- The extension is put behind the whole name when the name ends in a component without one. -/
  appended : ∀ before last, (Path.mk name).segments = before ++ [last] → Path.isIdle last = false →
    (Path.splitName last).2 = none → path = ⟨name ++ "." ++ language.extension⟩
  /-- A name without a component stays as it is. -/
  bare : (Path.mk name).stem? = none → path = ⟨name⟩
  /-- All other paths are of the language. -/
  told : Language.ofPath? path = some language ↔ (Path.mk name).stem? ≠ none

theorem named_of_ok (h : ofName language name content = .ok unit) :
    Named language name unit.path := by
  obtain ⟨hbelow, -, -, hpath⟩ := ofName_ok h
  obtain ⟨-, -, hup⟩ := staysBelow_iff.1 hbelow
  have extended : Language.ofPath? ⟨name⟩ ≠ some language → ∀ stem,
      (Path.mk name).stem? = some stem → unit.path = ⟨stem ++ "." ++ language.extension⟩ := by
    intro hother stem hstem
    rw [hpath, if_neg hother, Path.withExtension_eq hup, hstem]
  have bare : (Path.mk name).stem? = none → unit.path = ⟨name⟩ := by
    intro hnone
    rw [hpath]
    split
    · rfl
    · rw [Path.withExtension_eq hup, hnone]
  refine ⟨fun htold => by rw [hpath, if_pos htold], extended, ?_, bare, ?_⟩
  · intro before last hsegments busy hbare
    -- A name without extension is of no language.
    have hother : Language.ofPath? ⟨name⟩ ≠ some language := by
      have hne : last ≠ ".." := fun heq => hup (by simp [hsegments, heq])
      rw [Language.ofPath?, Path.extension?_of_segments hsegments busy hne, hbare]
      exact (Option.some_ne_none language).symm
    exact extended hother name (Path.stem?_of_bare hsegments busy hbare)
  · constructor
    · intro htold hnone
      rw [bare hnone] at htold
      exact stem?_of_language htold hnone
    · intro hstem
      rw [hpath]
      split
      · next htold => exact htold
      · exact ofPath?_withExtension hup hstem

/-- **Paths of names**: what the path of a unit is, and which names without an extension of the
    language share one: those with the same stem.  Names that end in components without extension are
    their own stems and share none. -/
theorem ofName_path (h : ofName language name content = .ok unit) :
    unit.language = some language ∧ Named language name unit.path ∧
      ∀ other content' unit', ofName language other content' = .ok unit' →
        Language.ofPath? ⟨name⟩ ≠ some language → Language.ofPath? ⟨other⟩ ≠ some language →
        (unit.path = unit'.path ↔ (Path.mk name).stem? = (Path.mk other).stem? ∧
          ((Path.mk name).stem? = none → name = other)) := by
  obtain ⟨-, -, hlanguage, -⟩ := ofName_ok h
  have hnamed := named_of_ok h
  refine ⟨hlanguage, hnamed, fun other content' unit' h' hother hother' => ?_⟩
  have hnamed' := named_of_ok h'
  rcases hstem : (Path.mk name).stem? with - | stem
  · rcases hstem' : (Path.mk other).stem? with - | stem'
    · rw [hnamed.bare hstem, hnamed'.bare hstem']
      simp
    · -- Only one of the two paths is of the language.
      have htold := hnamed'.told.2 (by simp [hstem'])
      have hnot := mt hnamed.told.1 (by simp [hstem])
      exact iff_of_false (fun heq => hnot (heq ▸ htold)) (by simp)
  · rcases hstem' : (Path.mk other).stem? with - | stem'
    · have htold := hnamed.told.2 (by simp [hstem])
      have hnot := mt hnamed'.told.1 (by simp [hstem'])
      exact iff_of_false (fun heq => hnot (heq ▸ htold)) (by simp)
    · rw [hnamed.extended hother stem hstem, hnamed'.extended hother' stem' hstem', Path.mk.injEq,
        ← String.toList_inj]
      simp [String.toList_append, String.toList_inj]

/-- A class of a package, named with slashes. -/
theorem slashed_name_path :
    ∃ unit, ofName .kotlin "com/example/Foo" "class Foo" = .ok unit ∧
      Language.ofPath? ⟨"com/example/Foo"⟩ ≠ some .kotlin ∧
      unit.language = some .kotlin ∧ Named .kotlin "com/example/Foo" unit.path ∧
      unit.path = ⟨"com/example/Foo.kt"⟩ ∧
      ∀ unit', ofName .kotlin "com/example/Bar.java" "" = .ok unit' → unit.path ≠ unit'.path := by
  have hok : ∃ unit, ofName .kotlin "com/example/Foo" "class Foo" = .ok unit := ⟨_, rfl⟩
  obtain ⟨unit, h⟩ := hok
  obtain ⟨hlanguage, hnamed, hshare⟩ := ofName_path h
  have hother : Language.ofPath? ⟨"com/example/Foo"⟩ ≠ some .kotlin := by decide +kernel
  refine ⟨unit, h, hother, hlanguage, hnamed, ?_, fun unit' h' heq => ?_⟩
  · exact hnamed.appended ["com", "example"] "Foo" (by decide +kernel) (by decide) (by decide +kernel)
  · have hboth := (hshare _ _ unit' h' hother (by decide +kernel)).1 heq
    exact absurd hboth.1 (by decide +kernel)

/-- Names of classes in which dots part the packages lose their last part, whereby two of them share a
    path; and a name of dots alone keeps its spelling and gets no extension. -/
theorem dotted_names_share :
    ¬ (∀ (language : Language) (name content : String) (unit : SourceUnit),
        ofName language name content = .ok unit →
        unit.path = (if Language.ofPath? ⟨name⟩ = some language then ⟨name⟩
            else ⟨name ++ "." ++ language.extension⟩) ∧
          Language.ofPath? unit.path = unit.language) ∧
      ∃ first second, ofName .kotlin "com.example.Foo" "" = .ok first ∧
        ofName .kotlin "com.example.Bar" "" = .ok second ∧ first.path = second.path ∧
        first.path = ⟨"com.example.kt"⟩ ∧
        ∃ third, ofName .kotlin "." "" = .ok third ∧ Language.ofPath? third.path = none := by
  have hfoo : ofName .kotlin "com.example.Foo" "" = .ok ⟨⟨"com.example.kt"⟩, "", some .kotlin⟩ := by
    decide +kernel
  have hbar : ofName .kotlin "com.example.Bar" "" = .ok ⟨⟨"com.example.kt"⟩, "", some .kotlin⟩ := by
    decide +kernel
  have hdot : ofName .kotlin "." "" = .ok ⟨⟨"."⟩, "", some .kotlin⟩ := by decide +kernel
  refine ⟨fun claim => ?_, _, _, hfoo, hbar, rfl, rfl, _, hdot, by decide +kernel⟩
  have hpath := (claim _ _ _ _ hfoo).1
  exact absurd hpath (by decide +kernel)

end SourceUnit

end KotlinHarness
