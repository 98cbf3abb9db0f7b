/-
  What a round offers.

  A round goes through the declarations of its files in the order met and leaves out what it has
  already under the same key.  So it offers the first declaration of each key, in order
  (`elements_ofElements`).  Where types come first that have names of their own, and after them no
  types but of these names, it offers the former and the first function of each name
  (`elements_typesFirst`).
-/
import Mathlib.Data.List.Nodup
import KotlinHarness.Processing.Round
import KotlinHarness.Proofs.Files.Growth

namespace KotlinHarness

/-! ## The first of each key -/

section FirstOfEach

variable {α κ ι : Type} [DecidableEq κ] [DecidableEq ι]

/-- The first item of each key, in order. -/
def firstOfEach (key : α → κ) : List α → List α
  | [] => []
  | item :: rest => item :: (firstOfEach key rest).filter fun other => key other ≠ key item

variable {key : α → κ} {items : List α}

theorem mem_of_mem_firstOfEach {item : α} (h : item ∈ firstOfEach key items) : item ∈ items := by
  induction items with
  | nil => exact h
  | cons first rest ih =>
    rcases List.mem_cons.1 h with rfl | h
    · exact List.mem_cons_self
    · exact List.mem_cons_of_mem _ (ih (List.mem_filter.1 h).1)

theorem firstOfEach_of_nodup (h : (items.map key).Nodup) : firstOfEach key items = items := by
  induction items with
  | nil => rfl
  | cons first rest ih =>
    rw [List.map_cons, List.nodup_cons] at h
    rw [firstOfEach, ih h.2, List.filter_eq_self.2]
    intro other hm
    rw [decide_eq_true_iff]
    exact fun heq => h.1 (heq ▸ List.mem_map_of_mem hm)

/-- It only matters which keys are equal. -/
theorem firstOfEach_congr {key' : α → ι}
    (h : ∀ item ∈ items, ∀ other ∈ items, key item = key other ↔ key' item = key' other) :
    firstOfEach key items = firstOfEach key' items := by
  induction items with
  | nil => rfl
  | cons first rest ih =>
    rw [firstOfEach, firstOfEach, ← ih fun item hm other hother =>
      h item (List.mem_cons_of_mem _ hm) other (List.mem_cons_of_mem _ hother)]
    refine congrArg _ (List.filter_congr fun other hm => ?_)
    have hother := List.mem_cons_of_mem first (mem_of_mem_firstOfEach hm)
    rw [decide_eq_decide]
    exact not_congr (h other hother first List.mem_cons_self)

/-- What is left out for its key can be left out before. -/
theorem filter_firstOfEach {keep : α → Bool}
    (h : ∀ item other, key item = key other → keep item = keep other) :
    (firstOfEach key items).filter keep = firstOfEach key (items.filter keep) := by
  induction items with
  | nil => rfl
  | cons first rest ih =>
    by_cases hkeep : keep first = true
    · rw [firstOfEach, List.filter_cons_of_pos hkeep, List.filter_cons_of_pos hkeep, firstOfEach, ← ih,
        List.filter_filter, List.filter_filter]
      simp only [Bool.and_comm]
    · rw [firstOfEach, List.filter_cons_of_neg hkeep, List.filter_cons_of_neg hkeep, ← ih,
        List.filter_filter]
      -- Whatever has the key of the first item is left out with it.
      refine List.filter_congr fun other _ => ?_
      rcases hother : keep other with - | -
      · rfl
      · have hne : key other ≠ key first := fun heq => hkeep (h other first heq ▸ hother)
        simp [hne]

end FirstOfEach

namespace Round

variable {types others elements kept : List Element}

theorem foldl_keepFirst (elements kept : List Element) :
    elements.foldl Element.keepFirst kept =
      kept ++ (firstOfEach Element.key elements).filter fun other => other.key ∉ kept.map Element.key := by
  induction elements generalizing kept with
  | nil => exact (List.append_nil kept).symm
  | cons element rest ih =>
    have hany : (kept.any (·.key == element.key)) = true ↔ element.key ∈ kept.map Element.key := by
      simp only [List.any_eq_true, beq_iff_eq, List.mem_map]
    rw [List.foldl_cons, ih, Element.keepFirst, firstOfEach]
    by_cases hkept : element.key ∈ kept.map Element.key
    · rw [if_pos (hany.2 hkept), List.filter_cons_of_neg (by simpa using hkept), List.filter_filter]
      refine congrArg _ (List.filter_congr fun other _ => ?_)
      rw [← Bool.decide_and, decide_eq_decide]
      exact ⟨fun h => ⟨h, fun heq => h (heq ▸ hkept)⟩, And.left⟩
    · rw [if_neg (mt hany.1 hkept), List.filter_cons_of_pos (by simpa using hkept), List.filter_filter,
        List.append_assoc, List.singleton_append]
      refine congrArg (kept ++ element :: ·) (List.filter_congr fun other _ => ?_)
      rw [← Bool.decide_and, decide_eq_decide, List.map_append, List.mem_append, not_or, List.map_cons,
        List.map_nil, List.mem_singleton]

/-- A round offers the first declaration of each key. -/
theorem elements_ofElements (elements : List Element) :
    (ofElements elements).elements = firstOfEach Element.key elements := by
  rw [ofElements, foldl_keepFirst, List.nil_append, List.filter_eq_self.2]
  intro other _
  rw [decide_eq_true_iff]
  exact List.not_mem_nil

/-- **What is offered** when types of different names come first: these types, and the first function
    of each name among the rest, if there are no other types. -/
theorem elements_typesFirst (isType : ∀ element ∈ types, element.kind.isType = true)
    (distinct : (types.map Element.qualifiedName).Nodup)
    (covered : ∀ element ∈ others, element.kind.isType = true →
      element.qualifiedName ∈ types.map Element.qualifiedName) :
    (ofElements (types ++ others)).elements =
      types ++ firstOfEach Element.qualifiedName (others.filter (! ·.kind.isType)) := by
  have hkey : ∀ element : Element, element.key ∈ types.map Element.key ↔
      element.kind.isType = true ∧ element.qualifiedName ∈ types.map Element.qualifiedName := by
    intro element
    simp only [List.mem_map, Element.key, Prod.mk.injEq]
    constructor
    · rintro ⟨other, hm, hname, hkind⟩
      exact ⟨hkind ▸ isType other hm, other, hm, hname⟩
    · rintro ⟨hkind, other, hm, hname⟩
      exact ⟨other, hm, hname, (isType other hm).trans hkind.symm⟩
  have hdistinct : (types.map Element.key).Nodup := by
    refine List.Nodup.of_map Prod.fst ?_
    rwa [List.map_map]
  have hfunctions : firstOfEach Element.key (others.filter (! ·.kind.isType)) =
      firstOfEach Element.qualifiedName (others.filter (! ·.kind.isType)) := by
    refine firstOfEach_congr fun element hm other hother => ?_
    have hkind : element.kind.isType = other.kind.isType := by
      have hfirst := (List.mem_filter.1 hm).2
      have hsecond := (List.mem_filter.1 hother).2
      rw [Bool.not_eq_true'] at hfirst hsecond
      rw [hfirst, hsecond]
    rw [Element.key, Element.key, Prod.mk.injEq, and_iff_left hkind]
  have htypes : types.foldl Element.keepFirst [] = types :=
    (elements_ofElements types).trans (firstOfEach_of_nodup hdistinct)
  rw [ofElements, List.foldl_append, htypes, foldl_keepFirst, ← hfunctions, ← filter_firstOfEach]
  · -- Of what comes after the types, exactly the functions have other keys.
    refine congrArg _ (List.filter_congr fun element hm => ?_)
    have hcovered := covered element (mem_of_mem_firstOfEach hm)
    rcases hkind : element.kind.isType with - | -
    · simp [hkey, hkind]
    · simpa [hkey, hkind] using hcovered hkind
  · intro element other heq
    rw [(Prod.mk.inj heq).2]

/-! ## The declarations of files -/

variable {env old new : Environment} {path : Path} {rest paths : List Path}

/-- The declarations of the first file come first. -/
theorem elementsOfAll_cons (h : elementsOfAll env (path :: rest) = .ok elements) :
    ∃ text others, env.readText path = .ok text ∧ elementsOfAll env rest = .ok others ∧
      elements = Element.parse path text ++ others := by
  rw [elementsOfAll, elementsOf] at h
  rcases htext : env.readText path with cause | text
  · rw [htext] at h
    cases h
  · rw [htext] at h
    simp only at h
    split at h
    · cases h
    · next others hothers =>
      cases h
      exact ⟨text, others, rfl, hothers, rfl⟩

theorem readable_of_elementsOfAll (h : elementsOfAll env paths = .ok elements) :
    ∀ path ∈ paths, env.Readable path := by
  induction paths generalizing elements with
  | nil => exact fun _ hm => absurd hm List.not_mem_nil
  | cons path rest ih =>
    obtain ⟨text, others, htext, hothers, -⟩ := elementsOfAll_cons h
    exact List.forall_mem_cons.2 ⟨⟨text, htext⟩, ih hothers⟩

/-- Every declaration is read from the text of a file. -/
theorem mem_elementsOfAll {element : Element} (h : elementsOfAll env paths = .ok elements)
    (hm : element ∈ elements) : ∃ path text, element ∈ Element.parse path text := by
  induction paths generalizing elements with
  | nil =>
    cases h
    cases hm
  | cons path rest ih =>
    obtain ⟨text, others, -, hothers, rfl⟩ := elementsOfAll_cons h
    rcases List.mem_append.1 hm with hm | hm
    · exact ⟨path, text, hm⟩
    · exact ih hothers hm

theorem elementsOfAll_append (env : Environment) (first second : List Path) :
    elementsOfAll env (first ++ second) =
      match elementsOfAll env first with
      | .error cause => .error cause
      | .ok elements => (elementsOfAll env second).map (elements ++ ·) := by
  induction first with
  | nil =>
    rw [List.nil_append, elementsOfAll]
    rcases elementsOfAll env second <;> rfl
  | cons path rest ih =>
    rw [List.cons_append, elementsOfAll, elementsOfAll, ih]
    rcases elementsOf env path with cause | elements
    · rfl
    · rcases elementsOfAll env rest with cause | more
      · rfl
      · rcases elementsOfAll env second with cause | others
        · rfl
        · simp only [Except.map, List.append_assoc]

/-- Which declarations there are depends on the texts of the files alone. -/
theorem elementsOfAll_congr (h : ∀ path ∈ paths, new.readText path = old.readText path) :
    elementsOfAll new paths = elementsOfAll old paths := by
  induction paths with
  | nil => rfl
  | cons path rest ih =>
    rw [elementsOfAll, elementsOfAll, elementsOf, elementsOf, h path List.mem_cons_self,
      ih fun other hm => h other (List.mem_cons_of_mem _ hm)]

end Round

end KotlinHarness
