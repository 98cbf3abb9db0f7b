/-
  Names that are declared, and names that are loaded.

  Two readers decide what a name is.  The scanner of sources takes word characters: letters, marks,
  decimal digits, connectors and join controls (`Text.isWord`).  The class loader takes identifiers,
  which go on with alphanumeric characters, `_` and `$`.  Where a qualified name starts like
  identifiers, the loader takes it if and only if it is alphanumeric (`spells_iff`); what else there
  can be in it is told by `isForeign`.

  Two builders make a path of the name.  The file that is written for a type is the one that is looked
  for (`elementPath_eq_fileNames`), so what was written is what is loaded.
-/
import KotlinHarness.Proofs.ClassLoader.Search
import KotlinHarness.Proofs.Rehearsal.Output

namespace KotlinHarness

/-! ## Characters -/

namespace Text

variable {c : Char} {ranges others : List (Nat × Nat)}

theorem inRanges_of_covered
    (covered : (ranges.all fun range => others.any fun other =>
      other.1 ≤ range.1 && range.2 ≤ other.2) = true)
    (h : inRanges ranges c = true) : inRanges others c = true := by
  obtain ⟨range, hrange, hc⟩ := List.any_eq_true.1 h
  obtain ⟨other, hother, hwithin⟩ := List.any_eq_true.1 (List.all_eq_true.1 covered range hrange)
  simp only [Bool.and_eq_true, decide_eq_true_eq] at hc hwithin
  refine List.any_eq_true.2 ⟨other, hother, ?_⟩
  simp only [Bool.and_eq_true, decide_eq_true_eq]
  omega

theorem numeric_of_decimal (h : inRanges decimalRanges c = true) : inRanges numericRanges c = true :=
  inRanges_of_covered (by decide +kernel) h

/-- Marks that are not alphanumeric, connectors but `_`, and join controls. -/
def isForeign (c : Char) : Bool :=
  !(isAlphanumeric c || c == '_') && (inRanges markRanges c || isConnector c || isJoinControl c)

/-- Word characters are alphanumeric or `_`, or they are foreign. -/
theorem isForeign_of_isWord (h : isWord c = true) (other : ¬ (isAlphanumeric c = true ∨ c = '_')) :
    isForeign c = true := by
  have hother := other
  rw [not_or, Bool.not_eq_true] at other
  rw [isForeign, other.1, beq_eq_false_iff_ne.2 other.2]
  rw [isAlphanumeric, isAlphabetic, isNumeric] at hother
  rw [isWord] at h
  split at h
  · next hascii =>
    simp only [if_pos hascii] at hother
    rw [Bool.or_eq_true, beq_iff_eq] at h
    exact absurd h hother
  · next hascii =>
    simp only [if_neg hascii, Bool.or_eq_true] at h hother ⊢
    rcases h with (((hletter | hmark) | hdigit) | hconnector) | hjoin
    · exact absurd (.inl (.inl (.inl hletter))) hother
    · simp [hmark]
    · exact absurd (.inl (.inr (.inl (numeric_of_decimal hdigit)))) hother
    · simp [hconnector]
    · simp [hjoin]

/-- Of word characters, an identifier may go on with the alphanumeric ones and `_`. -/
theorem isIdentifierPart_iff (h : isWord c = true) :
    ClassLoader.isIdentifierPart c = true ↔ isAlphanumeric c = true ∨ c = '_' := by
  have hdollar : (c == '$') = false := by
    rw [beq_eq_false_iff_ne]
    rintro rfl
    revert h
    decide
  rw [ClassLoader.isIdentifierPart, hdollar, Bool.or_false, Bool.or_eq_true, beq_iff_eq]

end Text

/-! ## Names of types -/

namespace Rehearsal

open ClassLoader Environment

variable {element : Element} {env : Environment} {destination : Path} {directories : List Path}

/-- The parts of a package and the name. -/
def nameParts (element : Element) : List String := packageParts element ++ [element.name]

/-- No part of the package is empty, and each of them and the name start with a letter or `_`. -/
def StartsWell (element : Element) : Prop :=
  ∀ part ∈ nameParts element, ∃ first ∈ part.toList.head?,
    Text.isAlphabetic first = true ∨ first = '_'

-- Neither instance is left to a search, which may find one that goes through every character there is.
instance (element : Element) : Decidable (StartsWell element) :=
  decidable_of_iff ((nameParts element).all fun part =>
    part.toList.head?.any fun first => Text.isAlphabetic first || first = '_') (by
      simp [StartsWell, Option.any_eq_true])

/-- Every part of the package and the name are made of alphanumeric characters and `_`. -/
def IsAlphanumeric (element : Element) : Prop :=
  ∀ part ∈ nameParts element, ∀ c ∈ part.toList, Text.isAlphanumeric c = true ∨ c = '_'

instance (element : Element) : Decidable (IsAlphanumeric element) :=
  decidable_of_iff ((nameParts element).all fun part =>
    part.toList.all fun c => Text.isAlphanumeric c || c = '_') (by simp [IsAlphanumeric])

theorem isWord_of_mem_nameParts (named : element.IsNamed) {part : String} {c : Char}
    (hpart : part ∈ nameParts element) (hc : c ∈ part.toList) : Text.isWord c = true := by
  rcases List.mem_append.1 hpart with hm | hm
  · have hdot : c ≠ '.' := fun hdot => dot_of_mem_packageParts hm (hdot ▸ hc)
    rw [packageParts] at hm
    split at hm
    · next package hpackage =>
      obtain ⟨piece, hpiece, rfl⟩ := List.mem_map.1 hm
      rw [String.toList_ofList] at hc
      have hdotted := named.package package hpackage c (Text.mem_of_mem_splitOn hpiece hc)
      rw [Text.isDotted, Bool.or_eq_true, beq_iff_eq] at hdotted
      exact hdotted.resolve_right hdot
    · exact absurd hm List.not_mem_nil
  · rw [List.mem_singleton.1 hm] at hc
    exact named.name.2 c hc

/-- The qualified name has its parts with dots between them. -/
theorem qualifiedName_eq_joinWith (element : Element) :
    element.qualifiedName.toList = Text.joinWith ['.'] ((nameParts element).map String.toList) := by
  rw [Element.qualifiedName, nameParts, packageParts, List.map_append, List.map_singleton]
  cases element.package with
  | none => rfl
  | some package =>
    have hpieces : ((Text.splitOn '.' package.toList).map String.ofList).map String.toList =
        Text.splitOn '.' package.toList := by
      simp [Function.comp_def]
    simp only [hpieces]
    have hne : Text.splitOn '.' package.toList ≠ [] := Text.splitWhere_ne_nil _ _
    rw [Text.joinWith_append hne (List.cons_ne_nil _ _), Text.joinWith_splitOn]
    simp [Text.joinWith, String.toList_append]

/-- A qualified name that starts well is a class name if it is alphanumeric, and not otherwise. -/
theorem spells_iff (named : element.IsNamed) (starts : StartsWell element) :
    Spells element.qualifiedName (nameParts element) ↔ IsAlphanumeric element := by
  constructor
  · intro spelled part hm c hc
    exact (Text.isIdentifierPart_iff (isWord_of_mem_nameParts named hm hc)).1
      (isIdentifierPart_of_isIdentifier (spelled.identifiers part hm) c hc)
  · intro alphanumeric
    refine ⟨by simp [nameParts], fun part hm => ?_, qualifiedName_eq_joinWith element⟩
    obtain ⟨first, hhead, hfirst⟩ := starts part hm
    obtain ⟨rest, hpart⟩ := List.head?_eq_some_iff.1 hhead
    rw [hpart, isIdentifier, Bool.and_eq_true]
    constructor
    · rw [isIdentifierStart]
      rcases hfirst with hletter | rfl
      · rw [hletter]
        rfl
      · simp
    · refine List.all_eq_true.2 fun c hc => ?_
      have hmem : c ∈ part.toList := by
        rw [hpart]
        exact List.mem_cons_of_mem first hc
      exact (Text.isIdentifierPart_iff (isWord_of_mem_nameParts named hm hmem)).2 (alphanumeric part hm c hmem)

/-- What is in a name that is not alphanumeric. -/
theorem exists_foreign (named : element.IsNamed) (foreign : ¬ IsAlphanumeric element) :
    ∃ part ∈ nameParts element, ∃ c ∈ part.toList, Text.isForeign c = true := by
  simp only [IsAlphanumeric, not_forall] at foreign
  obtain ⟨part, hpart, c, hc, hother⟩ := foreign
  exact ⟨part, hpart, c, hc, Text.isForeign_of_isWord (isWord_of_mem_nameParts named hpart hc) hother⟩

/-- There is no other way to read the qualified name. -/
theorem nameless_of_foreign (named : element.IsNamed) (starts : StartsWell element)
    (foreign : ¬ IsAlphanumeric element) (parts : List String) : ¬ Spells element.qualifiedName parts := by
  intro spelled
  have hsplit : Text.splitOn '.' element.qualifiedName.toList = (nameParts element).map String.toList := by
    rw [qualifiedName_eq_joinWith]
    refine Text.splitOn_joinWith (by simp [nameParts]) fun piece hm hdot => ?_
    obtain ⟨part, hpart, rfl⟩ := List.mem_map.1 hm
    have hword := isWord_of_mem_nameParts named hpart hdot
    revert hword
    decide
  have hparts : parts = nameParts element := by
    have hsome := nameParts?_eq_some_iff.2 spelled
    rw [nameParts?, hsplit] at hsome
    simp only [Option.ite_none_right_eq_some, Option.some.injEq] at hsome
    rw [← hsome.2]
    simp [Function.comp_def]
  exact foreign ((spells_iff named starts).1 (hparts ▸ spelled))

/-! ## Loading -/

theorem packageNames_of_startsWell (starts : StartsWell element) :
    packageNames element = packageParts element := by
  refine List.filter_eq_self.2 fun part hm => ?_
  obtain ⟨first, hhead, -⟩ := starts part (List.mem_append_left _ hm)
  have hne : part ≠ "" := by
    rintro rfl
    cases hhead
  simpa using hne

/-- The file that is written for a type is the one that is looked for. -/
theorem elementPath_eq_fileNames (named : element.IsNamed) (starts : StartsWell element) :
    elementPath destination element "class" = destination.extend (fileNames (nameParts element)) := by
  obtain ⟨hpath, -⟩ : elementPath destination element "class" = _ ∧ _ :=
    elementPath_eq named (Path.isEntry_of_plain (by decide))
  rw [hpath, packageNames_of_startsWell starts, nameParts, fileNames_concat]

/-- A class file that was written is found, unless a directory that is asked before has one. -/
theorem load_written (named : element.IsNamed) (starts : StartsWell element)
    (alphanumeric : IsAlphanumeric element)
    (elsewhere : ∀ directory ∈ directories,
      env.isFile (elementPath directory element "class") = false)
    (written : env.read (elementPath destination element "class") =
      .ok (ClassFile.header writtenMajor)) :
    (⟨[destination], [directories]⟩ : ClassLoader).load env element.qualifiedName =
      .ok ⟨element.qualifiedName, elementPath destination element "class",
        ClassFile.header writtenMajor, writtenMajor⟩ := by
  have spelled := (spells_iff named starts).2 alphanumeric
  rw [load_eq]
  refine (Finds.found spelled ⟨⟨directories, destination, [], by simp [chain], ?_, ?_⟩, written⟩).eq_findClass
  · exact elementPath_eq_fileNames named starts
  · intro directory hm
    rw [← elementPath_eq_fileNames named starts]
    exact elsewhere directory hm

/-- A name that is not alphanumeric is no name of a class. -/
theorem load_foreign (named : element.IsNamed) (starts : StartsWell element)
    (foreign : ¬ IsAlphanumeric element) (loader : ClassLoader) (env : Environment) :
    loader.load env element.qualifiedName = .error (.invalidName element.qualifiedName) := by
  rw [load_eq]
  exact (Finds.invalid (nameless_of_foreign named starts foreign)).eq_findClass

end Rehearsal

end KotlinHarness
