/-
  Rounds of annotation processing.

  A round offers the declarations of its input files.  A declaration met twice under one qualified
  name, such as a Kotlin class and its stub, is offered once, as first met; types and functions
  count apart.
-/
import KotlinHarness.Failure
import KotlinHarness.Files.Environment
import KotlinHarness.Source.Element

namespace KotlinHarness

/-- What processors see of one round. -/
structure Round where
  elements : List Element
  /-- Whether this is the final round, which offers nothing. -/
  isOver : Bool
  deriving DecidableEq, Inhabited

namespace Element

/-- What tells elements apart: the qualified name, and whether it names a type. -/
def key (element : Element) : String × Bool := (element.qualifiedName, element.kind.isType)

/-- `kept` followed by `element`, unless an element of its key is there. -/
def keepFirst (kept : List Element) (element : Element) : List Element :=
  if kept.any (·.key == element.key) then kept else kept ++ [element]

end Element

namespace Round

/-- The round over declarations in the order met. -/
def ofElements (elements : List Element) : Round := ⟨elements.foldl Element.keepFirst [], false⟩

/-- The declarations of a file. -/
def elementsOf (env : Environment) (path : Path) : Except Failure (List Element) :=
  match env.readText path with
  | .ok content => .ok (Element.parse path content)
  | .error cause => .error (.during (.reading path) (.io cause))

/-- The declarations of files, in order. -/
def elementsOfAll (env : Environment) : List Path → Except Failure (List Element)
  | [] => .ok []
  | path :: rest =>
    match elementsOf env path with
    | .error cause => .error cause
    | .ok first =>
      match elementsOfAll env rest with
      | .error cause => .error cause
      | .ok others => .ok (first ++ others)

/-- The round over the declarations of files. -/
def ofFiles (env : Environment) (paths : List Path) : Except Failure Round :=
  (elementsOfAll env paths).map ofElements

/-- The final round. -/
def final : Round := ⟨[], true⟩

/-- The declarations that carry an annotation, given by simple or qualified name. -/
def annotatedWith (round : Round) (name : String) : List Element :=
  round.elements.filter (·.isAnnotatedWith name)

end Round

end KotlinHarness
