/-
  Elements: the declarations of a source file, as annotation processors see them.
-/
import KotlinHarness.Path
import KotlinHarness.Source.Blank
import KotlinHarness.Source.Clause

namespace KotlinHarness

/-- What kind of declaration an element is. -/
inductive ElementKind where
  | classType
  | interface
  | enum
  | object
  | record
  | annotationType
  | function
  deriving DecidableEq, Inhabited

namespace ElementKind

def name : ElementKind → String
  | .classType => "class"
  | .interface => "interface"
  | .enum => "enum"
  | .object => "object"
  | .record => "record"
  | .annotationType => "annotation"
  | .function => "function"

/-- Whether the declaration compiles to a class file of its own. -/
def isType (kind : ElementKind) : Bool := kind != .function

/-- The kind of a declaration: its keyword decides, except that a class may be marked as an enum
    or else as an annotation by a modifier. -/
def ofDeclaration (found : Source.Declaration) : ElementKind :=
  let marked (word : String) := (Text.words found.modifierText).contains word.toList
  match found.keyword with
  | .annotationType => .annotationType
  | .interface => .interface
  | .enum => .enum
  | .object => .object
  | .record => .record
  | .function => .function
  | .classType =>
    if marked "enum" then .enum else if marked "annotation" then .annotationType else .classType

end ElementKind

/-- A declaration of a source file. -/
structure Element where
  kind : ElementKind
  package : Option String
  name : String
  /-- Names of the annotations as written, without at sign and arguments. -/
  annotations : List String
  source : Path
  deriving DecidableEq, Inhabited

namespace Element

/-- The name with the package in front, when there is one. -/
def qualifiedName (element : Element) : String :=
  match element.package with
  | some package => package ++ "." ++ element.name
  | none => element.name

/-- The part of a dotted name after its last dot. -/
def simpleName (name : String) : String := String.ofList (Text.afterLast '.' name.toList)

/-- Whether the element carries the annotation `wanted`, given by simple or qualified name. -/
def isAnnotatedWith (element : Element) (wanted : String) : Bool :=
  element.annotations.any fun written =>
    written == wanted || simpleName written == simpleName wanted

/-- The element of a declaration in `source`. -/
def ofDeclaration (source : Path) (package : Option String) (found : Source.Declaration) :
    Element where
  kind := .ofDeclaration found
  package := package
  name := String.ofList found.name
  annotations := Source.namesAfterAt found.annotationText
  source := source

/-- The declarations of `content`, in order. -/
def parse (source : Path) (content : String) : List Element :=
  let code := Source.codeOnly content.toList
  (Source.declarations code).map (ofDeclaration source (Source.package? code))

end Element

end KotlinHarness
