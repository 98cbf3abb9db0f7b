/-
  The surroundings of a compile call: files, working directory, variables.

  A path is followed segment by segment as the system does it: the empty segment and `.` stay in a
  directory, `..` goes to the directory above, a name must be found in a directory.  `locate`
  follows all of a path; `locateParent` stops before the last segment, for operations that create
  or remove it.

  Operations that change files are actions on the environment: what was done before a failure stays
  done.
-/
import KotlinHarness.Files.IoError
import KotlinHarness.Files.RandomName
import KotlinHarness.Files.Tree

namespace KotlinHarness

/-- Files, working directory and variables of the running harness. -/
structure Environment where
  files : FileTree
  /-- Where relative paths are read from. -/
  workingDirectory : Location
  vars : Variables
  /-- How many names were drawn for temporary directories so far. -/
  temporaries : Nat
  /-- The names that chance gives, in the order in which they are drawn; they are numbered where
      nothing is left to chance. -/
  randomName : Nat → RandomName := RandomName.ofNat
  deriving Inhabited

/-- An operation on the environment that may fail. -/
abbrev FileAction (α : Type) := EStateM IoError Environment α

/-- The last segment of a path, seen from the directory that holds it. -/
inductive LastSegment where
  /-- A name, and whether a slash follows it. -/
  | name (name : String) (slash : Bool)
  /-- `.`, `..` or nothing but slashes. -/
  | noName

/-- The most octets a file name may have. -/
def maxNameOctets : Nat := 255

/-- The most octets a path may have. -/
def maxPathOctets : Nat := 4095

namespace FileTree

/-- Follows segments from a location. -/
def follow (tree : FileTree) : Location → List String → Except IoError (Location × Node)
  | here, [] =>
    match tree.get? here with
    | some node => .ok (here, node)
    | none => .error .notFound
  | here, segment :: rest =>
    match tree.get? here with
    | none => .error .notFound
    | some (.file _) => .error .notADirectory
    | some (.directory children) =>
      if Path.isIdle segment then follow tree here rest
      else if segment = ".." then follow tree here.dropLast rest
      else if maxNameOctets < segment.utf8ByteSize then .error .nameTooLong
      else if children.names.contains segment then follow tree (here ++ [segment]) rest
      else .error .notFound

end FileTree

namespace Environment

/-- What is wrong with a path before any file is looked at. -/
def pathFault? (p : Path) : Option IoError :=
  if p.text.toList.contains (Char.ofNat 0) then some .nulInPath
  else if p.isEmpty then some .notFound
  else if maxPathOctets < p.text.utf8ByteSize then some .nameTooLong
  else none

/-- Where relative paths start and absolute ones do. -/
def start (env : Environment) (p : Path) : Location :=
  if p.isAbsolute then [] else env.workingDirectory

/-- The location a path leads to, and what stands there. -/
def locate (env : Environment) (p : Path) : Except IoError (Location × Node) :=
  match pathFault? p with
  | some fault => .error fault
  | none => env.files.follow (env.start p) p.segments

/-- The directory holding the last segment of a path, and that segment. -/
def locateParent (env : Environment) (p : Path) : Except IoError (Location × LastSegment) :=
  match pathFault? p with
  | some fault => .error fault
  | none =>
    let named := p.segments.filter (! ·.isEmpty)
    match env.files.follow (env.start p) named.dropLast with
    | .error cause => .error cause
    | .ok (_, .file _) => .error .notADirectory
    | .ok (here, .directory _) =>
      match named.getLast? with
      | none => .ok (here, .noName)
      | some last =>
        if last = "." || last = ".." then .ok (here, .noName)
        else .ok (here, .name last p.endsWithSlash)

/-! ## Looking -/

def isFile (env : Environment) (p : Path) : Bool :=
  match env.locate p with
  | .ok (_, .file _) => true
  | _ => false

def isDirectory (env : Environment) (p : Path) : Bool :=
  match env.locate p with
  | .ok (_, .directory _) => true
  | _ => false

/-- The octets of a file. -/
def read (env : Environment) (p : Path) : Except IoError Bytes :=
  match env.locate p with
  | .ok (_, .file data) => .ok data.bytes
  | .ok (_, .directory _) => .error .isADirectory
  | .error cause => .error cause

/-- The text of a file. -/
def readText (env : Environment) (p : Path) : Except IoError String :=
  match env.read p with
  | .ok bytes =>
    match Text.decode? bytes with
    | some text => .ok text
    | none => .error .notUtf8
  | .error cause => .error cause

/-- The names in a directory, in order. -/
def namesIn (env : Environment) (p : Path) : Except IoError (List String) :=
  match env.locate p with
  | .ok (_, .directory children) => .ok children.names
  | .ok (_, .file _) => .error .notADirectory
  | .error cause => .error cause

/-- The absolute spelling of a location. -/
def spelling (location : Location) : Path :=
  if location.isEmpty then ⟨"/"⟩ else ⟨String.join (location.map ("/" ++ ·))⟩

/-- The absolute spelling of the working directory. -/
def currentDirectory (env : Environment) : Path := spelling env.workingDirectory

/-- The spelling without `.`, `..` and doubled slashes of something that exists. -/
def canonical? (env : Environment) (p : Path) : Option Path :=
  match env.locate p with
  | .ok (location, _) => some (spelling location)
  | .error _ => none

/-- Whether a walk from `p` opens the directory that names lead to from there, which it does by the
    whole path.  What is in a directory that it does not open is passed over. -/
def opens (p : Path) (names : Location) : Bool := (pathFault? (p.extend names)).isNone

/-- Every file at or below `p` in a directory that is opened, depth first in the order of names: the
    names that lead to it from `p`, and its data.  A file is found at itself. -/
def filesBelow (env : Environment) (p : Path) : Except IoError (List (Location × FileData)) :=
  match env.locate p with
  | .ok (_, .directory children) =>
    .ok (children.files.filter fun found => opens p found.1.dropLast)
  | .ok (_, .file data) => .ok [([], data)]
  | .error cause => .error cause

/-- The paths of all files at or below `p` that a walk comes to, depth first in the order of names;
    none when `p` is missing. -/
def listFiles (env : Environment) (p : Path) : List Path :=
  match env.filesBelow p with
  | .ok found => found.map fun entry => p.extend entry.1
  | .error _ => []

/-! ## Changing -/

/-- The environment with `leaf` put at a location. -/
def put (env : Environment) (location : Location) (leaf : Leaf) : Environment :=
  { env with files := env.files.insert location leaf }

/-- Creates one directory. -/
def makeDirectory (p : Path) : FileAction Unit := fun env =>
  match env.locateParent p with
  | .error cause => .error cause env
  | .ok (_, .noName) => .error .alreadyExists env
  | .ok (here, .name name _) =>
    if maxNameOctets < name.utf8ByteSize then .error .nameTooLong env
    else
      match env.files.get? (here ++ [name]) with
      | some _ => .error .alreadyExists env
      | none => .ok () (env.put (here ++ [name]) .directory)

/-- Creates a directory after what is missing above it, looking at most `depth` components up.  A
    directory that is already there is left as it is. -/
def makeDirectoriesUpTo : Nat → Path → FileAction Unit
  | 0, _ => throw .noAncestor
  | depth + 1, p => fun env =>
    if p.isEmpty then .ok () env
    else
      match makeDirectory p env with
      | .ok _ env => .ok () env
      | .error cause env =>
        if cause = .notFound then
          match p.parent? with
          | none => .error .noAncestor env
          | some parent =>
            match makeDirectoriesUpTo depth parent env with
            | .error cause env => .error cause env
            | .ok _ env =>
              match makeDirectory p env with
              | .ok _ env => .ok () env
              | .error cause env => if env.isDirectory p then .ok () env else .error cause env
        else if env.isDirectory p then .ok () env
        else .error cause env

/-- Creates a directory and everything missing above it. -/
def makeDirectories (p : Path) : FileAction Unit :=
  makeDirectoriesUpTo (p.components.length + 1) p

/-- Creates a file or replaces its octets. -/
def write (p : Path) (bytes : Bytes) : FileAction Unit := fun env =>
  match env.locateParent p with
  | .error cause => .error cause env
  | .ok (_, .noName) => .error .isADirectory env
  | .ok (here, .name name slash) =>
    if slash then .error .isADirectory env
    else if maxNameOctets < name.utf8ByteSize then .error .nameTooLong env
    else
      match env.files.get? (here ++ [name]) with
      | some (.directory _) => .error .isADirectory env
      | some (.file old) =>
        .ok () (env.put (here ++ [name]) (.file ⟨bytes, old.mode.overwritten⟩))
      | none => .ok () (env.put (here ++ [name]) (.file ⟨bytes, .plain⟩))

/-- Makes a file executable as `program`, creating it and the directories above it. -/
def installProgram (p : Path) (program : Program) : FileAction Unit := do
  if let some parent := p.parent? then makeDirectories parent
  write p []
  modify fun env =>
    match env.locate p with
    | .ok (location, _) => env.put location (.file ⟨[], .executable (some program)⟩)
    | .error _ => env

/-- Removes a file. -/
def remove (p : Path) : FileAction Unit := fun env =>
  match env.locateParent p with
  | .error cause => .error cause env
  | .ok (_, .noName) => .error .isADirectory env
  | .ok (here, .name name slash) =>
    match env.files.get? (here ++ [name]) with
    | none => .error .notFound env
    | some (.directory _) => .error .isADirectory env
    | some (.file _) =>
      if slash then .error .notADirectory env
      else .ok () { env with files := env.files.erase (here ++ [name]) }

end Environment

end KotlinHarness
