/-
  Runtime support libraries, recognized by the names of their archives.

  An archive is `<name>.jar` or `<name>-<major>.<minor>[.<patch>][<suffix>].jar`, where the
  numbers are ASCII digits and the suffix is made of ASCII letters, digits, dots and dashes.
-/
import KotlinHarness.Path

namespace KotlinHarness

/-- A library looked for by file name. -/
structure RuntimeLibrary where
  /-- File names that are the library without a version. -/
  simpleNames : List String
  /-- Names that a version may follow. -/
  names : List String

namespace RuntimeLibrary

/-- Letters, digits, dots and dashes: the characters after the numbers of a version. -/
def isSuffixChar (c : Char) : Bool := c.isAlphanum || c == '.' || c == '-'

/-- `rest` after a number, a dot and a number; none when it does not start so. -/
def afterNumbers? (rest : List Char) : Option (List Char) :=
  let afterMajor := rest.dropWhile Char.isDigit
  match afterMajor with
  | '.' :: minor =>
    if (rest.takeWhile Char.isDigit).isEmpty || (minor.takeWhile Char.isDigit).isEmpty then none
    else some (minor.dropWhile Char.isDigit)
  | _ => none

/-- Whether a version and the archive extension make up `rest`.  A patch number is made of suffix
    characters, so that it needs no rule of its own. -/
def isVersionedEnd (rest : List Char) : Bool :=
  match afterNumbers? rest with
  | none => false
  | some suffix =>
    ".jar".toList.isSuffixOf suffix && (suffix.take (suffix.length - 4)).all isSuffixChar

/-- Whether a file name is `name`, a dash, a version and the archive extension. -/
def isVersioned (fileName name : List Char) : Bool :=
  match (name ++ ['-']).isPrefixOf? fileName with
  | some rest => isVersionedEnd rest
  | none => false

/-- The names that a version may follow; a library without names has the empty one. -/
def versionedNames (library : RuntimeLibrary) : List String :=
  if library.names.isEmpty then [""] else library.names

/-- Whether a file name is one of the library's archives. -/
def hasName (library : RuntimeLibrary) (fileName : String) : Bool :=
  library.simpleNames.contains fileName
    || library.versionedNames.any fun name => isVersioned fileName.toList name.toList

def isMatch (library : RuntimeLibrary) (path : Path) : Bool :=
  match path.fileName? with
  | some fileName => library.hasName fileName
  | none => false

/-- The first entry that is the library. -/
def find? (library : RuntimeLibrary) (entries : List Path) : Option Path :=
  entries.find? library.isMatch

/-- The standard library. -/
def stdlib : RuntimeLibrary :=
  ⟨["kotlin-stdlib.jar", "kotlin-runtime.jar"], ["kotlin-stdlib", "kotlin-runtime"]⟩

def stdlibCommon : RuntimeLibrary := ⟨["kotlin-stdlib-common.jar"], ["kotlin-stdlib-common"]⟩

def reflect : RuntimeLibrary := ⟨["kotlin-reflect.jar"], ["kotlin-reflect"]⟩

def scriptRuntime : RuntimeLibrary := ⟨["kotlin-script-runtime.jar"], ["kotlin-script-runtime"]⟩

/-- The compiler plugin for annotation processing. -/
def kaptPlugin : RuntimeLibrary :=
  ⟨["kotlin-annotation-processing-embeddable.jar", "kotlin-annotation-processing.jar"],
    ["kotlin-annotation-processing-embeddable", "kotlin-annotation-processing"]⟩

end RuntimeLibrary

end KotlinHarness
