/-
  Stubs are read as what they stand for.

  The stub of a type is a package clause, an empty line, and a declaration as it is printed.  So one
  declaration is read from it: that of the type, with its package, name and annotations, and with its
  kind as far as Java has it (`parse_stub`).
-/
import KotlinHarness.Proofs.Source.Written
import KotlinHarness.Rehearsal.Frontend

namespace KotlinHarness

namespace Element

/-- An element whose names were taken by the scanners. -/
structure IsRead (element : Element) : Prop where
  name : Source.IsRun Text.isWord element.name.toList
  package : ∀ package, element.package = some package →
    Source.IsRun Text.isDotted package.toList
  annotations : ∀ name ∈ element.annotations, Source.IsRun Text.isDotted name.toList

theorem isRead_of_mem_parse {source : Path} {content : String} {element : Element}
    (h : element ∈ parse source content) : element.IsRead := by
  have named := isNamed_of_mem_parse h
  simp only [parse] at h
  obtain ⟨found, hfound, rfl⟩ := List.mem_map.1 h
  refine ⟨named.name, fun package hpackage => ?_, fun name hm => Source.isRun_of_mem_namesAfterAt hm⟩
  obtain ⟨name, hname, rfl⟩ := Option.map_eq_some_iff.1 hpackage
  rw [String.toList_ofList]
  exact Source.isRun_of_packageFrom hname

theorem IsRead.isNamed {element : Element} (h : element.IsRead) : element.IsNamed :=
  ⟨h.name, fun package hpackage => (h.package package hpackage).2⟩

end Element

namespace Rehearsal

open Source

variable {element : Element}

/-- The kind of a stub: Java has no object, and a record's stub is a class. -/
def stubKind : ElementKind → ElementKind
  | .object => .classType
  | .record => .classType
  | kind => kind

theorem isType_stubKind {kind : ElementKind} (isType : kind.isType = true) :
    (stubKind kind).isType = true := by
  cases kind <;> first | rfl | cases isType

/-- The element that is read from the stub of an element, in the file of the stub. -/
def asStub (source : Path) (element : Element) : Element :=
  { element with kind := stubKind element.kind, source }

/-- The keyword of a stub. -/
def keywordOf : ElementKind → Keyword
  | .interface => .interface
  | .enum => .enum
  | .annotationType => .annotationType
  | _ => .classType

theorem stubKeyword_eq (kind : ElementKind) : stubKeyword kind = (keywordOf kind).text := by
  cases kind <;> rfl

/-! ## The text of a stub -/

/-- The declaration in the stub of an element. -/
def declarationIn (read : element.IsRead) : WrittenDeclaration where
  annotations := element.annotations.attach.map fun name =>
    ⟨name.1, none, read.annotations name.1 name.2, fun _ hm => absurd hm (Option.not_mem_none _)⟩
  modifiers := [⟨"public", by decide⟩]
  keyword := keywordOf element.kind
  name := element.name
  isName := read.name

theorem stub_eq (read : element.IsRead) :
    stub element = stubPackage element ++ (declarationIn read).text := by
  have hannotations : (declarationIn read).annotations.map WrittenMark.text =
      element.annotations.map fun name => "@" ++ name ++ "\n" := by
    rw [declarationIn, List.map_map, ← List.attach_map_val (l := element.annotations)]
    exact List.map_congr_left fun name _ => by simp [WrittenMark.text]
  have hwords : " ".intercalate (declarationIn read).words =
      "public " ++ (keywordOf element.kind).text ++ " " ++ element.name := by
    simp [declarationIn, WrittenDeclaration.words, String.append_assoc]
  rw [stub, stubKeyword_eq, WrittenDeclaration.text, hannotations, hwords]
  simp only [String.append_assoc]

theorem kind_declarationIn (read : element.IsRead) (isType : element.kind.isType = true) :
    (declarationIn read).kind = stubKind element.kind := by
  rw [WrittenDeclaration.kind, declarationIn]
  cases hkind : element.kind with
  | function =>
    rw [hkind] at isType
    cases isType
  | _ => simp [keywordOf, stubKind]

/-- **Stubs**: from the stub of a type, that type is read and nothing else. -/
theorem parse_stub (read : element.IsRead) (isType : element.kind.isType = true) (source : Path) :
    Element.parse source (stub element) = [asStub source element] := by
  have hread : [declarationIn read].map (·.element source element.package) =
      [asStub source element] := by
    have hnames : (declarationIn read).annotations.map (·.name) = element.annotations := by
      rw [declarationIn, List.map_map]
      exact element.annotations.attach_map_subtype_val
    rw [List.map_singleton, WrittenDeclaration.element, kind_declarationIn read isType, hnames]
    rfl
  rw [← hread]
  rcases hpackage : element.package with - | package
  · refine parse_behind precedes_nil _ source ?_
    rw [stub_eq read, stubPackage, hpackage, String.toList_append, List.flatMap_singleton]
    rfl
  · have hempty : ∀ c ∈ ['\n'], c = '\n' := fun _ hm => List.mem_singleton.1 hm
    refine parse_behind (precedes_clause (read.package package hpackage) hempty) _ source ?_
    rw [stub_eq read, stubPackage, hpackage, String.toList_append, List.flatMap_singleton]
    simp [String.toList_append]

end Rehearsal

end KotlinHarness
