/-
  Declarations with an annotation, and the rounds that offer them.

  A round keeps one declaration for each qualified name and sort, type or function: the one that is met
  first (`filter_firstOfEach_key`).  Who asks the round for an annotation is shown that one if it
  carries the annotation, and nothing of this name and sort if it does not, whatever comes later.  So a
  type and its stub, annotated alike, are represented by whichever is read first; an annotated function
  is lost behind one without annotation of the same name (`overload_hidden`).
-/
import KotlinHarness.Proofs.Processing.Offered
import KotlinHarness.Proofs.Processing.Protocol

namespace KotlinHarness

/-- Of each key the first item is kept. -/
theorem filter_firstOfEach_key {α κ : Type} [DecidableEq κ] (key : α → κ) (wanted : κ)
    (items : List α) : (firstOfEach key items).filter (key · = wanted) =
      (items.find? (key · = wanted)).toList := by
  induction items with
  | nil => rfl
  | cons first rest ih =>
    by_cases hfirst : key first = wanted
    · rw [firstOfEach, List.filter_cons_of_pos (by simpa using hfirst), List.filter_filter,
        List.find?_cons_of_pos (by simpa using hfirst), Option.toList_some,
        List.filter_eq_nil_iff.2 fun other _ => ?_]
      simp [hfirst]
    · rw [firstOfEach, List.filter_cons_of_neg (by simpa using hfirst), List.filter_filter,
        List.find?_cons_of_neg (by simpa using hfirst), ← ih]
      refine List.filter_congr fun other _ => ?_
      by_cases hother : key other = wanted
      · simp [hother, Ne.symm hfirst]
      · simp [hother]

namespace Round

variable {env : Environment} {paths : List Path} {elements : List Element}

/-- The declarations of files that can be read, file by file. -/
def declared (env : Environment) (paths : List Path) : List Element :=
  paths.flatMap fun path =>
    match env.readText path with
    | .ok text => Element.parse path text
    | .error _ => []

theorem elementsOfAll_declared (readable : ∀ path ∈ paths, env.Readable path) :
    elementsOfAll env paths = .ok (declared env paths) := by
  induction paths with
  | nil => rfl
  | cons path rest ih =>
    obtain ⟨text, htext⟩ := readable path List.mem_cons_self
    have hrest := ih fun other hm => readable other (List.mem_cons_of_mem _ hm)
    have hfile : declared env (path :: rest) = Element.parse path text ++ declared env rest := by
      rw [declared, List.flatMap_cons, htext]
      rfl
    rw [hfile, elementsOfAll, elementsOf, htext, hrest]

/-- Among the declarations that a round shows for an annotation is one of the qualified name of
    `element`, and of its sort. -/
def Represents (round : Round) (name : String) (element : Element) : Prop :=
  ∃ shown ∈ round.annotatedWith name,
    shown.qualifiedName = element.qualifiedName ∧ shown.kind.isType = element.kind.isType

/-- What a round shows for an annotation of one qualified name and sort. -/
theorem annotatedWith_key (elements : List Element) (name : String) (wanted : String × Bool) :
    ((ofElements elements).annotatedWith name).filter (·.key = wanted) =
      ((elements.find? (·.key = wanted)).toList).filter (·.isAnnotatedWith name) := by
  rw [annotatedWith, elements_ofElements, ← filter_firstOfEach_key Element.key, List.filter_filter,
    List.filter_filter]
  simp only [Bool.and_comm]

theorem represents_iff (round : Round) (name : String) (element : Element) :
    round.Represents name element ↔
      (round.annotatedWith name).filter (·.key = element.key) ≠ [] := by
  simp [Represents, List.filter_eq_nil_iff, Element.key]

/-- **Annotated declarations are represented** exactly where the first declaration of their qualified
    name and sort, in the order of the files, carries the annotation too; it is the one that stands for
    them then. -/
theorem annotated_represented (readable : ∀ path ∈ paths, env.Readable path) :
    ∃ round, ofFiles env paths = .ok round ∧
      ∀ name, ∀ element ∈ declared env paths, element.isAnnotatedWith name = true →
        ∃ first, (declared env paths).find? (·.key = element.key) = some first ∧
          (round.Represents name element ↔ first.isAnnotatedWith name = true) ∧
          ∀ shown ∈ round.annotatedWith name, shown.key = element.key → shown = first := by
  refine ⟨ofElements (declared env paths), ?_, fun name element hm _ => ?_⟩
  · rw [ofFiles, elementsOfAll_declared readable]
    rfl
  obtain ⟨first, hfirst⟩ : ∃ first, (declared env paths).find? (·.key = element.key) = some first :=
    Option.isSome_iff_exists.1 (List.find?_isSome.2 ⟨element, hm, decide_eq_true rfl⟩)
  have hshown := annotatedWith_key (declared env paths) name element.key
  rw [hfirst, Option.toList_some] at hshown
  refine ⟨first, hfirst, ?_, fun shown hmember hkey => ?_⟩
  · rw [represents_iff, hshown]
    simp
  · have hone : shown ∈ [first].filter (·.isAnnotatedWith name) := by
      rw [← hshown]
      exact List.mem_filter.2 ⟨hmember, by simpa using hkey⟩
    exact List.mem_singleton.1 (List.mem_filter.1 hone).1

/-- A class and its stub, both annotated. -/
def classAndStub : Environment :=
  { (default : Environment) with
    files := (FileTree.empty.insert ["A.java"] (.file ⟨Text.encode "@Data class A", .plain⟩)).insert
      ["A.kt"] (.file ⟨Text.encode "@x.Data data class A", .plain⟩) }

theorem class_represented :
    (∀ path ∈ [(⟨"/A.java"⟩ : Path), ⟨"/A.kt"⟩], classAndStub.Readable path) ∧
      ∃ round, ofFiles classAndStub [⟨"/A.java"⟩, ⟨"/A.kt"⟩] = .ok round ∧
        ∃ element ∈ declared classAndStub [⟨"/A.java"⟩, ⟨"/A.kt"⟩], element.source = ⟨"/A.kt"⟩ ∧
          element.isAnnotatedWith "x.Data" = true ∧ round.Represents "x.Data" element := by
  have readable : ∀ path ∈ [(⟨"/A.java"⟩ : Path), ⟨"/A.kt"⟩], classAndStub.Readable path := by
    intro path hm
    simp only [List.mem_cons, List.not_mem_nil, or_false] at hm
    rcases hm with rfl | rfl
    · exact ⟨"@Data class A", by rfl⟩
    · exact ⟨"@x.Data data class A", by rfl⟩
  obtain ⟨round, hround, hall⟩ := annotated_represented readable
  have hm : (⟨.classType, none, "A", ["x.Data"], ⟨"/A.kt"⟩⟩ : Element) ∈
      declared classAndStub [⟨"/A.java"⟩, ⟨"/A.kt"⟩] := by decide +kernel
  obtain ⟨first, hfirst, hiff, -⟩ := hall "x.Data" _ hm (by decide +kernel)
  refine ⟨readable, round, hround, _, hm, rfl, by decide +kernel, hiff.2 ?_⟩
  have hstub : (declared classAndStub [⟨"/A.java"⟩, ⟨"/A.kt"⟩]).find?
      (·.key = (⟨.classType, none, "A", ["x.Data"], ⟨"/A.kt"⟩⟩ : Element).key) =
      some ⟨.classType, none, "A", ["Data"], ⟨"/A.java"⟩⟩ := by decide +kernel
  rw [hstub] at hfirst
  obtain rfl := Option.some.inj hfirst
  decide +kernel

/-- Two functions of one name, the second of them annotated. -/
def overloads : Environment :=
  { (default : Environment) with
    files := FileTree.empty.insert ["f.kt"] (.file ⟨Text.encode "fun f()\n@A fun f(x: Int)\n", .plain⟩) }

/-- A declaration is hidden by an earlier one of its name that does not carry the annotation. -/
theorem overload_hidden : ¬ ∀ (env : Environment) (paths : List Path),
    (∀ path ∈ paths, env.Readable path) → ∃ round, ofFiles env paths = .ok round ∧
      ∀ name, ∀ element ∈ declared env paths, element.isAnnotatedWith name = true →
        round.Represents name element := by
  intro h
  obtain ⟨round, hround, hall⟩ := h overloads [⟨"/f.kt"⟩] (by
    intro path hm
    rw [List.mem_singleton.1 hm]
    exact ⟨"fun f()\n@A fun f(x: Int)\n", by rfl⟩)
  obtain ⟨shown, hm, -⟩ := hall "A" ⟨.function, none, "f", ["A"], ⟨"/f.kt"⟩⟩ (by decide +kernel)
    (by decide +kernel)
  have hnone : (ofFiles overloads [⟨"/f.kt"⟩]).map (annotatedWith · "A") = .ok [] := by
    decide +kernel
  rw [hround] at hnone
  have hnone : round.annotatedWith "A" = [] := Except.ok.inj hnone
  rw [hnone] at hm
  cases hm

end Round

end KotlinHarness
