/-
  Paths as text, read component by component.

  A path keeps its spelling; two spellings are the same path when their components agree.
  Components ignore repeated and trailing slashes and every `.` but a leading one; `..` stays,
  because what it names depends on the files.

    * `components`   what the spelling means
    * `join`         an absolute right side replaces the left one
    * `parent?`, `fileName?`, `extension?`   the last component and what precedes it
    * `absolute?`    the spelling made absolute, without looking at the files
-/
import KotlinHarness.Text.Split

namespace KotlinHarness

/-- One component of a path. -/
inductive Component where
  | root
  /-- A leading `.`. -/
  | current
  /-- `..` -/
  | parent
  | normal (name : String)
  deriving DecidableEq, Inhabited

namespace Component

/-- The spelling of a component. -/
def text : Component → String
  | root => "/"
  | current => "."
  | parent => ".."
  | normal name => name

/-- The component that a segment between slashes stands for; the empty segment and `.` are none. -/
def ofSegment? (segment : String) : Option Component :=
  if segment = "" || segment = "." then none
  else if segment = ".." then some parent
  else some (normal segment)

/-- Whether the component stays below the directory it is read in. -/
def isPlain : Component → Bool
  | normal _ | current => true
  | root | parent => false

end Component

/-- A path, kept as it was written. -/
structure Path where
  text : String
  deriving DecidableEq, Inhabited

namespace Path

/-- The parts between slashes, empty ones included. -/
def segments (p : Path) : List String := (Text.splitOn '/' p.text.toList).map String.ofList

/-- Segments put back together. -/
def ofSegments (segments : List String) : Path := ⟨String.intercalate "/" segments⟩

def isEmpty (p : Path) : Bool := p.text.isEmpty

def isAbsolute (p : Path) : Bool := p.text.toList.head? == some '/'

def endsWithSlash (p : Path) : Bool := p.text.toList.getLast? == some '/'

/-- What the path means, component by component. -/
def components (p : Path) : List Component :=
  let body := p.segments.filterMap Component.ofSegment?
  if p.isAbsolute then .root :: body
  else if p.segments.head? = some "." then .current :: body
  else body

/-- Equality of components: the two spellings denote the same path. -/
def sameAs (p q : Path) : Bool := p.components == q.components

/-- `q` read from `p`: one slash in between where needed, and an absolute `q` as it is. -/
def join (p q : Path) : Path :=
  if q.isAbsolute then q
  else if p.isEmpty || p.endsWithSlash then ⟨p.text ++ q.text⟩
  else ⟨p.text ++ "/" ++ q.text⟩

instance : HDiv Path String Path := ⟨fun p name => p.join ⟨name⟩⟩

/-- `p` extended by each name in turn. -/
def extend (p : Path) (names : List String) : Path := names.foldl (· / ·) p

/-! ## The last component -/

/-- A segment that adds no component where it stands. -/
def isIdle (segment : String) : Bool := segment = "" || segment = "."

/-- The segments before the last one that adds a component, and that segment. -/
def splitLast? (p : Path) : Option (List String × String) :=
  match p.segments.reverse.dropWhile isIdle with
  | [] => none
  | last :: before => some (before.reverse, last)

/-- The last component when it is a name. -/
def fileName? (p : Path) : Option String :=
  match p.splitLast? with
  | some (_, last) => if last = ".." then none else some last
  | none => none

/-- Segments without idle ones at the end; the first segment stays, as it may be the root or a
    leading dot. -/
def dropIdleEnd : List String → List String
  | [] => []
  | first :: rest => first :: (rest.reverse.dropWhile isIdle).reverse

/-- The path without its last component; none for the root and the empty path. -/
def parent? (p : Path) : Option Path :=
  match p.splitLast? with
  | some (before, _) =>
    match dropIdleEnd before with
    | [""] => some ⟨"/"⟩
    | kept => some (ofSegments kept)
  | none => if p.segments.head? = some "." then some ⟨""⟩ else none

/-- A file name cut at its last dot: stem and extension.  A name whose only dot is its first
    character has no extension. -/
def splitName (name : String) : String × Option String :=
  let reversed := name.toList.reverse
  match reversed.dropWhile (· != '.') with
  | [] => (name, none)
  | _ :: [] => (name, none)
  | _ :: before =>
    (String.ofList before.reverse, some (String.ofList (reversed.takeWhile (· != '.')).reverse))

/-- The extension of the file name. -/
def extension? (p : Path) : Option String := p.fileName?.bind fun name => (splitName name).2

/-- The path with the extension of its file name replaced or added; what follows the stem is cut
    off.  A path without file name stays as it is. -/
def withExtension (p : Path) (extension : String) : Path :=
  match p.splitLast? with
  | some (before, last) =>
    if last = ".." then p
    else ⟨(ofSegments (before ++ [(splitName last).1])).text ++ "." ++ extension⟩
  | none => p

/-! ## Absolute spelling and de-duplication -/

/-- The absolute spelling seen from the directory `base`: without `.` and repeated slashes, with
    `..` and a trailing slash kept, and with exactly two leading slashes kept.  The empty path has
    none. -/
def absolute? (p base : Path) : Option Path :=
  if p.isEmpty then none
  else
    let body := (p.segments.filterMap Component.ofSegment?).map Component.text
    let start : Path :=
      match p.text.toList with
      | '/' :: '/' :: '/' :: _ => ⟨"/"⟩
      | '/' :: '/' :: _ => ⟨"//"⟩
      | '/' :: _ => ⟨"/"⟩
      | _ => base
    let full := start.extend body
    some (if p.endsWithSlash then full / "" else full)

/-- Whether some entry of `paths` is the same path as `p`. -/
def isAmong (p : Path) (paths : List Path) : Bool := paths.any (·.sameAs p)

/-- `paths` with every later spelling of an earlier path left out. -/
def dedup (paths : List Path) : List Path :=
  paths.foldl (fun kept p => if p.isAmong kept then kept else kept ++ [p]) []

end Path

end KotlinHarness
