/-
  Source units: in-memory sources with a place below the sources root.
-/
import KotlinHarness.Source.Language

namespace KotlinHarness

/-- An in-memory source file.  Its path leads to a place below the root it is staged under. -/
structure SourceUnit where
  path : Path
  content : String
  /-- Resources have none. -/
  language : Option Language
  deriving DecidableEq, Inhabited

/-- Why a source unit is refused. -/
inductive SourceFault where
  /-- The path is empty, absolute or leaves the root. -/
  | outsideRoot (path : Path)
  deriving DecidableEq, Inhabited

namespace SourceFault

def message : SourceFault → String
  | outsideRoot path => "source path '" ++ path.text ++ "' must be relative to the sources root"

end SourceFault

namespace SourceUnit

/-- Whether a path stays below the directory it is read in. -/
def staysBelow (p : Path) : Bool := !p.isEmpty && p.components.all Component.isPlain

/-- A unit at `path`, its language told by the extension. -/
def ofPath (path : Path) (content : String) : Except SourceFault SourceUnit :=
  if staysBelow path then .ok ⟨path, content, Language.ofPath? path⟩ else .error (.outsideRoot path)

/-- A unit of the given language; the extension of the language replaces one of another. -/
def ofName (language : Language) (name : String) (content : String) :
    Except SourceFault SourceUnit :=
  let path : Path := ⟨name⟩
  if staysBelow path then
    let path :=
      if Language.ofPath? path = some language then path else path.withExtension language.extension
    .ok ⟨path, content, some language⟩
  else .error (.outsideRoot path)

end SourceUnit

end KotlinHarness
