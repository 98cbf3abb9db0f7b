/-
  Child processes and the search path.

  A child changes into its directory first and only then looks for its program, so a relative
  program path, and a relative entry of the search path, are read from there.  A name without
  slash is looked for on the search path; anything else is run where it stands.

  The harness looks up tools before it starts them.  Its look-up, unlike that of a child, reads a
  leading `~` in the search path as the home directory.
-/
import KotlinHarness.Files.Environment

namespace KotlinHarness

/-- What to run. -/
structure Command where
  program : Path
  arguments : List String
  /-- Where the child runs; the harness's own directory without one. -/
  directory : Option Path := none
  /-- Variables set for the child on top of those it inherits. -/
  overrides : Variables := []

namespace Path

/-- The entries of a text in which colons part paths. -/
def splitList (text : String) : List Path :=
  (Text.splitOn ':' text.toList).map fun piece => ⟨String.ofList piece⟩

/-- Paths in one text, parted by colons. -/
def joinList (paths : List Path) : String := String.intercalate ":" (paths.map Path.text)

end Path

namespace Environment

/-- The program at a path. -/
def programAt (env : Environment) (path : Path) : Except IoError Program :=
  match env.locate path with
  | .error cause => .error cause
  | .ok (_, .directory _) => .error .permissionDenied
  | .ok (_, .file data) =>
    match data.mode with
    | .plain => .error .permissionDenied
    | .executable none => .error .notAProgram
    | .executable (some program) => .ok program

/-- Whether a path leads to a file that may be run. -/
def isRunnable (env : Environment) (path : Path) : Bool :=
  match env.locate path with
  | .ok (_, .file data) =>
    match data.mode with
    | .plain => false
    | .executable _ => true
  | _ => false

/-- The directories of the search path. -/
def searchPath (env : Environment) : Option (List Path) :=
  (env.vars.get? "PATH").map Path.splitList

/-- The directory that an entry of the search path stands for: a first component `~` is the home
    directory, and without one such an entry stands for nothing. -/
def searchDirectory? (env : Environment) (entry : Path) : Option Path :=
  match entry.components with
  | .normal "~" :: rest =>
    (env.vars.get? "HOME").map fun home => (Path.mk home).extend (rest.map Component.text)
  | _ => some entry

/-- The directories in which the harness looks for its tools. -/
def searchDirectories (env : Environment) : List Path :=
  (env.searchPath.getD []).filterMap env.searchDirectory?

/-- The first runnable file of a name on the search path. -/
def which (env : Environment) (name : String) : Option Path :=
  (env.searchDirectories.map (· / name)).find? env.isRunnable

/-- Causes for which the search goes on to the next directory. -/
def isSkipped (cause : IoError) : Bool :=
  cause = .notFound || cause = .notADirectory || cause = .permissionDenied

/-- The first program among `candidates`.  When there is none, a file that could not be run is
    reported before one that is missing. -/
def firstProgram (env : Environment) : List Path → Except IoError Program
  | [] => .error .notFound
  | candidate :: rest =>
    match env.programAt candidate with
    | .ok program => .ok program
    | .error cause =>
      if isSkipped cause then
        match env.firstProgram rest with
        | .error .notFound => .error (if cause = .permissionDenied then cause else .notFound)
        | other => other
      else .error cause

/-- The directories searched when no search path is set. -/
def defaultSearchPath : List Path := [⟨"/bin"⟩, ⟨"/usr/bin"⟩]

/-- The program a child runs, seen from the child's directory. -/
def resolveProgram (env : Environment) (program : Path) : Except IoError Program :=
  if program.isEmpty then .error .notFound
  else if program.text.toList.contains '/' then env.programAt program
  else env.firstProgram ((env.searchPath.getD defaultSearchPath).map (·.join program))

/-- Whether a text can be handed to a child. -/
def isPassable (text : String) : Bool := !text.toList.contains (Char.ofNat 0)

/-- Whether all texts of a command can be handed to a child. -/
def isPassableCommand (command : Command) : Bool :=
  isPassable command.program.text && command.arguments.all isPassable
    && command.directory.all (isPassable ·.text)
    && command.overrides.all fun entry => isPassable entry.1 && isPassable entry.2

/-- The environment seen by a child that runs in `directory`. -/
def inDirectory (env : Environment) : Option Path → Except IoError Environment
  | none => .ok env
  | some directory =>
    match env.locate directory with
    | .error cause => .error cause
    | .ok (_, .file _) => .error .notADirectory
    | .ok (location, .directory _) => .ok { env with workingDirectory := location }

/-- Runs a command to its end. -/
def spawn (env : Environment) (command : Command) : Except IoError Outcome :=
  if !isPassableCommand command then .error .nulInArgument
  else
    match env.inDirectory command.directory with
    | .error cause => .error cause
    | .ok child =>
      let child := { child with vars := command.overrides ++ child.vars }
      match child.resolveProgram command.program with
      | .error cause => .error cause
      | .ok program =>
        .ok (program.run ⟨command.arguments, child.currentDirectory.text, child.vars⟩)

/-- Everything a command prints, standard output first, as text; none when it cannot be run. -/
def capture? (env : Environment) (command : Command) : Option String :=
  match env.spawn command with
  | .ok outcome => some outcome.text
  | .error _ => none

end Environment

end KotlinHarness
