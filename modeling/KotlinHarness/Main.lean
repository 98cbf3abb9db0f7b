/-
  The program: arguments and files in, a report and files out.

  This outer layer decides nothing.  It takes a picture of the files a command line may ask about,
  hands it to `CommandLine.run`, writes back the files that are new or changed, and prints.  The
  picture holds

    * the working directory with everything below it, links left out,
    * the homes that `KOTLIN_HOME` and `JAVA_HOME` name, and the tools on the search path, by name
      only; of these the text of a `release` file is read,
    * the directory for temporary files, as an empty one.

  Compilers are not started from here: outside the working directory a file counts as executable
  and as no program, so that a run that needs one ends with the message of a tool that could not
  be run.
-/
import KotlinHarness.CommandLine.Run

namespace KotlinHarness.CommandLine

/-- The variables a command line may ask about. -/
def variableNames : List String :=
  ["PATH", "HOME", "CLASSPATH", "KOTLIN_HOME", "JAVA_HOME", "JAVA_OPTS", "TMPDIR"]

/-- The tools looked for on the search path. -/
def toolNames : List String := ["kotlinc", "javac"]

/-- The deepest directory looked into. -/
def depthLimit : Nat := 64

/-- The variables that are set. -/
def readVariables : IO Variables :=
  variableNames.filterMapM fun name => do
    return (← IO.getEnv name).map fun value => (name, value)

/-- The location of a path seen from a directory. -/
def locationOf (base : Location) (path : Path) : Location :=
  let names := path.segments.filter (! Path.isIdle ·)
  if path.isAbsolute then names else base ++ names

/-- A file of the working directory. -/
def readWhole (path : String) : IO FileData :=
  return ⟨(← IO.FS.readBinFile path).toList, .plain⟩

/-- A file of the host. -/
def readName (path : String) : IO FileData := do
  let isRelease := (Path.mk path).fileName? = some "release"
  let bytes ← if isRelease then IO.FS.readBinFile path else pure .empty
  return ⟨bytes.toList, .executable none⟩

/-- `tree` with the files below a directory, at most `depth` levels deep; what cannot be read is
    left out. -/
def readBelow (read : String → IO FileData) : Nat → Location → FileTree → IO FileTree
  | 0, _, tree => return tree
  | depth + 1, here, tree =>
    try
      let directory ← IO.FS.realPath (Environment.spelling here).text
      let mut tree := tree.withDirectories here
      for entry in ← directory.readDir do
        let location := here ++ [entry.fileName]
        match (← entry.path.symlinkMetadata).type with
        | .dir => tree ← readBelow read depth location tree
        | .file => tree := tree.insert location (.file (← read entry.path.toString))
        | _ => pure ()
      return tree
    catch _ => return tree

/-- `tree` with a tool in a directory, when it is there. -/
def readTool (tree : FileTree) (directory : Location) (name : String) : IO FileTree := do
  try
    let location := directory ++ [name]
    let data ← readName (Environment.spelling location).text
    let _ ← (← IO.FS.realPath (Environment.spelling location).text).metadata
    return (tree.withDirectories directory).insert location (.file data)
  catch _ => return tree

/-- The surroundings that a command line is run in. -/
def readEnvironment : IO Environment := do
  let vars ← readVariables
  let here := locationOf [] ⟨(← IO.currentDir).toString⟩
  let mut tree ← readBelow readWhole depthLimit here (FileTree.empty.withDirectories here)
  for name in ["KOTLIN_HOME", "JAVA_HOME"] do
    if let some home := vars.get? name then
      tree ← readBelow readName depthLimit (locationOf here ⟨home⟩) tree
  let chance := (← IO.getRandomBytes 5).toList.foldl (fun n octet => n * 256 + octet.toNat) 0
  let mut environment : Environment :=
    { files := tree, workingDirectory := here, vars, temporaries := 0
      randomName := fun n => .ofNat (chance + n) }
  for directory in environment.searchDirectories do
    for name in toolNames do
      let files ← readTool environment.files (locationOf here directory) name
      environment := { environment with files }
  let temporary := locationOf here environment.temporaryDir
  return { environment with files := environment.files.withDirectories temporary }

/-- Writes what is new or changed in `after`. -/
def writeChanges (before after : FileTree) : IO Unit := do
  for (location, _) in after.root.listing do
    let path := (Environment.spelling location).text
    match after.get? location, before.get? location with
    | some (.directory _), none => IO.FS.createDirAll path
    | some (.file data), some (.file old) =>
      if data.bytes != old.bytes then IO.FS.writeBinFile path ⟨data.bytes.toArray⟩
    | some (.file data), none => IO.FS.writeBinFile path ⟨data.bytes.toArray⟩
    | _, _ => pure ()

end KotlinHarness.CommandLine

open KotlinHarness in
/-- Runs the command line in the working directory. -/
def main (args : List String) : IO UInt32 := do
  let environment ← CommandLine.readEnvironment
  let ended := CommandLine.run environment args
  CommandLine.writeChanges environment.files ended.environment.files
  IO.print ended.output
  IO.eprint ended.errors
  return ended.status.toUInt32
