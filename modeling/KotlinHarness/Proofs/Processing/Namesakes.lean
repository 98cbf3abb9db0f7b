/-
  Annotations of one simple name.

  A query matches an annotation when the last parts of the two dotted names agree (`isAnnotatedWith_iff`).
  Nothing more is asked of two names that are both qualified, so an annotation answers to queries for
  its namesakes of other packages too (`annotatedWith_namesakes`).
-/
import KotlinHarness.Proofs.Text.Split
import KotlinHarness.Processing.Round

namespace KotlinHarness

namespace Element

variable {simple name written query : String}

/-! ## Simple names -/

/-- `simple` is what stands behind the last dot of a name, or all of a name without dots. -/
structure IsLastPart (simple name : String) : Prop where
  undotted : '.' ∉ simple.toList
  ends : name = simple ∨ ∃ package, name = package ++ "." ++ simple

theorem IsLastPart.simpleName_eq (h : IsLastPart simple name) : simpleName name = simple := by
  rw [simpleName, ← String.toList_inj, String.toList_ofList]
  rcases h.ends with rfl | ⟨package, rfl⟩
  · exact Text.afterLast_of_not_mem h.undotted
  · rw [String.toList_append, String.toList_append, List.append_assoc]
    exact Text.afterLast_append_cons _ h.undotted

theorem isLastPart_simpleName (name : String) : IsLastPart (simpleName name) name := by
  obtain ⟨simple, h⟩ : ∃ simple, IsLastPart simple name := by
    by_cases hdot : '.' ∈ name.toList
    · -- The first dot from the end is the last one.
      obtain ⟨last, front, hname, hlast⟩ := List.eq_append_cons_of_mem (List.mem_reverse.2 hdot)
      refine ⟨String.ofList last.reverse, ?_, .inr ⟨String.ofList front.reverse, ?_⟩⟩
      · rwa [String.toList_ofList, List.mem_reverse]
      · rw [← String.toList_inj, ← List.reverse_reverse name.toList, hname]
        simp [String.toList_append, String.toList_ofList]
    · exact ⟨name, hdot, .inl rfl⟩
  rwa [h.simpleName_eq]

theorem simpleName_eq_iff : simpleName written = simpleName query ↔
    ∃ simple, IsLastPart simple written ∧ IsLastPart simple query := by
  constructor
  · intro h
    exact ⟨simpleName written, isLastPart_simpleName written, h ▸ isLastPart_simpleName query⟩
  · rintro ⟨simple, hwritten, hquery⟩
    rw [hwritten.simpleName_eq, hquery.simpleName_eq]

/-- The annotations that an element carries are looked at for their simple names only. -/
theorem isAnnotatedWith_iff (element : Element) (query : String) :
    element.isAnnotatedWith query = true ↔
      ∃ written ∈ element.annotations, simpleName written = simpleName query := by
  simp only [isAnnotatedWith, List.any_eq_true, Bool.or_eq_true, beq_iff_eq]
  refine exists_congr fun written => and_congr_right fun _ => or_iff_right_of_imp ?_
  rintro rfl
  rfl

/-! ## Qualified names -/

def IsQualified (name : String) : Prop := '.' ∈ name.toList

instance : Decidable (IsQualified name) := inferInstanceAs (Decidable ('.' ∈ name.toList))

/-- Two names of different packages with the same last part. -/
def Namesakes (written query : String) : Prop :=
  ∃ package package' simple, package ≠ package' ∧ '.' ∉ simple.toList ∧
    written = package ++ "." ++ simple ∧ query = package' ++ "." ++ simple

theorem IsLastPart.exists_package (h : IsLastPart simple name) (qualified : IsQualified name) :
    ∃ package, name = package ++ "." ++ simple := by
  refine h.ends.resolve_left ?_
  rintro rfl
  exact h.undotted qualified

/-- Qualified names agree in their last parts if they are the same name, or namesakes. -/
theorem simpleName_eq_iff_of_qualified (hwritten : IsQualified written) (hquery : IsQualified query) :
    simpleName written = simpleName query ↔ written = query ∨ Namesakes written query := by
  constructor
  · intro h
    obtain ⟨simple, hlast, hlast'⟩ := simpleName_eq_iff.1 h
    obtain ⟨package, hpackage⟩ := hlast.exists_package hwritten
    obtain ⟨package', hpackage'⟩ := hlast'.exists_package hquery
    by_cases hsame : package = package'
    · left
      rw [hpackage, hpackage', hsame]
    · exact .inr ⟨package, package', simple, hsame, hlast.undotted, hpackage, hpackage'⟩
  · rintro (rfl | ⟨package, package', simple, -, hdot, rfl, rfl⟩)
    · rfl
    · exact simpleName_eq_iff.2 ⟨simple, ⟨hdot, .inr ⟨package, rfl⟩⟩, ⟨hdot, .inr ⟨package', rfl⟩⟩⟩

end Element

namespace Round

open Element

/-- **What a query for an annotation finds** in a round: the elements with an annotation whose last part
    is that of the query, whichever of the two is qualified.  So where both are, an element is found
    that carries the annotation itself, and also one that carries a namesake of another package. -/
theorem annotatedWith_namesakes (round : Round) (query : String) (element : Element) :
    (element ∈ round.annotatedWith query ↔ element ∈ round.elements ∧
      ∃ written ∈ element.annotations, ∃ simple, IsLastPart simple written ∧ IsLastPart simple query) ∧
    (element ∈ round.elements → IsQualified query →
      (∀ written ∈ element.annotations, IsQualified written) →
      (element ∈ round.annotatedWith query ↔
        query ∈ element.annotations ∨ ∃ written ∈ element.annotations, Namesakes written query)) := by
  have hfound : element ∈ round.annotatedWith query ↔ element ∈ round.elements ∧
      ∃ written ∈ element.annotations, simpleName written = simpleName query := by
    rw [annotatedWith, List.mem_filter, isAnnotatedWith_iff]
  constructor
  · simp only [hfound, simpleName_eq_iff]
  · intro offered hquery hwritten
    rw [hfound, and_iff_right offered]
    constructor
    · rintro ⟨written, hm, hsame⟩
      rcases (simpleName_eq_iff_of_qualified (hwritten written hm) hquery).1 hsame with rfl | hother
      · exact .inl hm
      · exact .inr ⟨written, hm, hother⟩
    · rintro (hm | ⟨written, hm, hother⟩)
      · exact ⟨query, hm, rfl⟩
      · exact ⟨written, hm, (simpleName_eq_iff_of_qualified (hwritten written hm) hquery).2 (.inr hother)⟩

/-- The round over a class with one annotation. -/
def annotatedClass : Round := .ofElements (Element.parse ⟨"X.java"⟩ "@a.B class X")

/-- The class of that round. -/
def itsClass : Element := ⟨.classType, none, "X", ["a.B"], ⟨"X.java"⟩⟩

theorem elements_annotatedClass : annotatedClass.elements = [itsClass] := by decide +kernel

theorem annotatedClass_namesakes :
    itsClass ∈ annotatedClass.elements ∧ IsQualified "a.B" ∧
      (∀ written ∈ itsClass.annotations, IsQualified written) ∧
      (itsClass ∈ annotatedClass.annotatedWith "a.B" ∧ itsClass ∈ annotatedClass.annotatedWith "c.B" ∧
        itsClass ∉ annotatedClass.annotatedWith "a.C") := by
  have offered : itsClass ∈ annotatedClass.elements := by
    rw [elements_annotatedClass]
    exact List.mem_singleton_self _
  have hwritten : ∀ written ∈ itsClass.annotations, IsQualified written := by decide +kernel
  have hiff : ∀ query, IsQualified query → (itsClass ∈ annotatedClass.annotatedWith query ↔
      query ∈ itsClass.annotations ∨ ∃ written ∈ itsClass.annotations, Namesakes written query) :=
    fun query hquery => (annotatedWith_namesakes _ query _).2 offered hquery hwritten
  have htold := (annotatedWith_namesakes annotatedClass "a.C" itsClass).1
  refine ⟨offered, by decide +kernel, hwritten, ?_, ?_, ?_⟩
  · exact (hiff "a.B" (by decide +kernel)).2 (.inl (by decide +kernel))
  · refine (hiff "c.B" (by decide +kernel)).2 (.inr ⟨"a.B", by decide +kernel, ?_⟩)
    exact ⟨"a", "c", "B", by decide +kernel, by decide +kernel, by decide +kernel, by decide +kernel⟩
  · rw [htold]
    rintro ⟨-, written, hm, last⟩
    obtain rfl := List.mem_singleton.1 hm
    revert last
    rw [← simpleName_eq_iff]
    decide +kernel

/-- An element that carries one annotation is found for another of the same last part. -/
theorem namesake_found : ¬ ∀ (round : Round) (query : String), IsQualified query →
    ∀ element ∈ round.elements, (∀ written ∈ element.annotations, IsQualified written) →
      (element ∈ round.annotatedWith query ↔ query ∈ element.annotations) := by
  intro hall
  have offered : itsClass ∈ annotatedClass.elements := by
    rw [elements_annotatedClass]
    exact List.mem_singleton_self _
  have hfound : itsClass ∈ annotatedClass.annotatedWith "c.B" := by decide +kernel
  have hcarried := (hall _ _ (by decide +kernel) _ offered (by decide +kernel)).1 hfound
  revert hcarried
  decide +kernel

end Round

end KotlinHarness
