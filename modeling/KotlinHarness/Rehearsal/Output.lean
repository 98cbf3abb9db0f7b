/-
  What the rehearsed compilers read and write: balanced braces in, class file headers out.

  A rehearsed compiler understands just enough of a source to know its type declarations.  Each
  becomes the first eight octets of a class file, in a directory for its package.
-/
import KotlinHarness.ClassFile
import KotlinHarness.Files.Deposit
import KotlinHarness.Source.Element

namespace KotlinHarness.Rehearsal

/-- The major version written: that of Java 8. -/
def writtenMajor : Nat := 52

/-- Whether braces close in order, with `depth` of them open. -/
def closesFrom : Nat → List Char → Bool
  | depth, [] => depth == 0
  | depth, c :: rest =>
    if c = '\x7b' then closesFrom (depth + 1) rest
    else if c = '\x7d' then
      match depth with
      | 0 => false
      | depth + 1 => closesFrom depth rest
    else closesFrom depth rest

/-- Whether every brace of a text is closed, and none without having been opened. -/
def isBalanced (content : String) : Bool := closesFrom 0 content.toList

/-- The text of a source. -/
def readSource (source : Path) : EnvironmentAction String := fun env =>
  match env.readText source with
  | .ok content => .ok content env
  | .error cause => .error (.during (.reading source) (.io cause)) env

/-- The types declared in a source. -/
def typesOf (source : Path) (content : String) : List Element :=
  (Element.parse source content).filter (·.kind.isType)

/-- The parts of an element's package. -/
def packageParts (element : Element) : List String :=
  match element.package with
  | some package => (Text.splitOn '.' package.toList).map String.ofList
  | none => []

/-- The file for an element below a root: one directory for each part of its package. -/
def elementPath (root : Path) (element : Element) (extension : String) : Path :=
  root.extend (packageParts element) / (element.name ++ "." ++ extension)

/-- A file operation that fails with its bare cause. -/
def plainly {α : Type} (action : FileAction α) : EnvironmentAction α := fun env =>
  match action env with
  | .ok value env => .ok value env
  | .error cause env => .error (.io cause) env

/-- Writes the class file of an element. -/
def writeClass (destination : Path) (element : Element) : EnvironmentAction Unit := do
  let path := elementPath destination element "class"
  if let some parent := path.parent? then plainly (Environment.makeDirectories parent)
  plainly (Environment.write path (ClassFile.header writtenMajor))

/-- Does something for each member of a list, in turn. -/
def forEach {α : Type} (action : α → EnvironmentAction Unit) : List α → EnvironmentAction Unit
  | [] => pure ()
  | first :: rest => do
    action first
    forEach action rest

/-- Writes the class files of all types declared in sources. -/
def writeClasses (destination : Path) (sources : List Path) : EnvironmentAction Unit :=
  forEach (fun source => do
    let content ← readSource source
    forEach (writeClass destination) (typesOf source content)) sources

end KotlinHarness.Rehearsal
