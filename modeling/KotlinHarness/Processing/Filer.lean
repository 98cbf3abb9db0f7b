/-
  Generated source files.

  The filer gives each file its place: the Java or the Kotlin directory, one directory for each
  part of the package, the name with the extension of the language.  A file can be created once;
  files created since the last round are pending, to be offered in the next.
-/
import KotlinHarness.Files.Deposit
import KotlinHarness.Source.Language

namespace KotlinHarness

/-- Where generated files go, and which there are. -/
structure Filer where
  javaDir : Path
  kotlinDir : Path
  /-- Every file created so far, in order. -/
  created : List Path
  /-- Those of them that no round has offered yet. -/
  pending : List Path
  deriving DecidableEq, Inhabited

namespace Filer

/-- A filer that has created nothing. -/
def start (javaDir kotlinDir : Path) : Filer := ⟨javaDir, kotlinDir, [], []⟩

/-- Where files of a language go. -/
def directory (filer : Filer) : Language → Path
  | .java => filer.javaDir
  | .kotlin => filer.kotlinDir

/-- The parts of a dotted name; none when one is empty. -/
def nameParts? (name : String) : Option (List String) :=
  let parts := (Text.splitOn '.' name.toList).map String.ofList
  if parts.any (·.isEmpty) then none else some parts

/-- The place of the file named `name`. -/
def place? (filer : Filer) (language : Language) (name : String) : Option Path :=
  (nameParts? name).map fun parts =>
    ((filer.directory language).extend parts).withExtension language.extension

/-- The place of a file that may still be created. -/
def newPlace (filer : Filer) (language : Language) (name : String) : Except Failure Path :=
  match filer.place? language name with
  | none => .error (.invalidTypeName name)
  | some path => if path.isAmong filer.created then .error (.recreation path) else .ok path

/-- The filer after a file was created. -/
def noted (filer : Filer) (path : Path) : Filer :=
  { filer with created := filer.created ++ [path], pending := filer.pending ++ [path] }

/-- The filer with nothing pending. -/
def settled (filer : Filer) : Filer := { filer with pending := [] }

/-- Creates the file named `name`.  When this fails the filer stays as it was. -/
def create (filer : Filer) (language : Language) (name content : String) :
    EnvironmentAction (Path × Filer) :=
  match filer.newPlace language name with
  | .error cause => throw cause
  | .ok path => do
    let _ ← Environment.deposit .always path content
    pure (path, filer.noted path)

end Filer

end KotlinHarness
