/-
  Source languages, told apart by file extension.
-/
import KotlinHarness.Path

namespace KotlinHarness

/-- The language of a source file.  Kotlin is compiled first, Java last. -/
inductive Language where
  | kotlin
  | java
  deriving DecidableEq, Inhabited

namespace Language

def name : Language → String
  | kotlin => "kotlin"
  | java => "java"

/-- The extension given to a source that has none of its language. -/
def extension : Language → String
  | kotlin => "kt"
  | java => "java"

/-- The language a file extension belongs to; scripts are Kotlin. -/
def ofExtension? (extension : String) : Option Language :=
  if extension = "kt" || extension = "kts" then some kotlin
  else if extension = "java" then some java
  else none

/-- The language of a path. -/
def ofPath? (p : Path) : Option Language := p.extension?.bind ofExtension?

theorem ofExtension?_extension (language : Language) :
    ofExtension? language.extension = some language := by
  cases language <;> rfl

end Language

end KotlinHarness
