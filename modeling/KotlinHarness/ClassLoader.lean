/-
  Class loaders over directories of class files.

  A loader asks its parent first and looks below its own roots only for what the parent does not
  have.  Names are dotted lists of identifiers, so that the path made of a name stays below a
  root.
-/
import KotlinHarness.ClassFile
import KotlinHarness.Files.Environment

namespace KotlinHarness

/-- Why a class cannot be loaded. -/
inductive ClassLoadError where
  | notFound (name : String)
  | invalidName (name : String)
  | badMagic (path : Path)
  | unreadable (path : Path) (cause : IoError)
  deriving DecidableEq, Inhabited

namespace ClassLoadError

def message : ClassLoadError → String
  | notFound name => "class not found: " ++ name
  | invalidName name => "invalid class name \x60" ++ name ++ "\x60"
  | badMagic path => path.text ++ " is not a class file"
  | unreadable path _ => "failed to read " ++ path.text

end ClassLoadError

/-- A class file that was found. -/
structure LoadedClass where
  name : String
  path : Path
  bytes : Bytes
  majorVersion : Nat
  deriving DecidableEq, Inhabited

/-- A loader with its own roots and those of its parents, the nearest first. -/
structure ClassLoader where
  roots : List Path
  ancestors : List (List Path)
  deriving DecidableEq, Inhabited

namespace ClassLoader

/-- Characters that an identifier may start with. -/
def isIdentifierStart (c : Char) : Bool := Text.isAlphabetic c || c == '_' || c == '$'

/-- Characters that an identifier may go on with. -/
def isIdentifierPart (c : Char) : Bool := Text.isAlphanumeric c || c == '_' || c == '$'

def isIdentifier : List Char → Bool
  | [] => false
  | c :: rest => isIdentifierStart c && rest.all isIdentifierPart

/-- The identifiers that a class name is made of. -/
def nameParts? (name : String) : Option (List String) :=
  let parts := Text.splitOn '.' name.toList
  if parts.all isIdentifier then some (parts.map String.ofList) else none

/-- The file of a class below a root. -/
def classFile? (name : String) : Option Path :=
  (nameParts? name).map fun parts => ((⟨""⟩ : Path).extend parts).withExtension "class"

/-- The class in a file's octets. -/
def readClass (name : String) (path : Path) (bytes : Bytes) : Except ClassLoadError LoadedClass :=
  match ClassFile.major? bytes with
  | some major => .ok ⟨name, path, bytes, major⟩
  | none => .error (.badMagic path)

/-- Looks for a class below roots; the first that has its file decides. -/
def findClass (env : Environment) (roots : List Path) (name : String) :
    Except ClassLoadError LoadedClass :=
  match classFile? name with
  | none => .error (.invalidName name)
  | some file =>
    match (roots.map (·.join file)).find? env.isFile with
    | none => .error (.notFound name)
    | some path =>
      match env.read path with
      | .ok bytes => readClass name path bytes
      | .error cause => .error (.unreadable path cause)

/-- Loads a class by its roots and those of the parents. -/
def loadFrom (env : Environment) (name : String) : List Path → List (List Path) →
    Except ClassLoadError LoadedClass
  | roots, [] => findClass env roots name
  | roots, parent :: above =>
    match loadFrom env name parent above with
    | .error (.notFound _) => findClass env roots name
    | found => found

/-- Loads a class by its name. -/
def load (loader : ClassLoader) (env : Environment) (name : String) :
    Except ClassLoadError LoadedClass :=
  loadFrom env name loader.roots loader.ancestors

end ClassLoader

end KotlinHarness
