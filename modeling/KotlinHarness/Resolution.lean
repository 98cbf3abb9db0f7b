/-
  Resolution: a configuration with every default settled against the host.

  Defaults that depend on nothing come first (workspace root, host class path, JDK), then those
  that follow from them.  A temporary root is made on the way and stays.  Three things are
  refused, in this order: a JDK home that is no directory, annotation processing on an old JDK
  without its compiler archive, and a directory of generated Kotlin sources that does not exist.
-/
import KotlinHarness.Manifest.Compilation
import KotlinHarness.Toolchain.Host
import KotlinHarness.Workspace.Layout

namespace KotlinHarness

/-- A configuration with its defaults settled, shared by the stages of one compile call. -/
structure Resolution where
  config : Compilation
  workspace : Workspace
  hostClasspath : List Path
  runtime : RuntimeJars
  jdk : Jdk
  /-- The compiler archive to put in front of the plugins: only when the JDK needs it and the host
      does not see one already. -/
  toolsJar : Option Path
  /-- Where generated Kotlin sources go. -/
  generatedKotlinDir : Path
  /-- The class path shared by all stages. -/
  classpath : List Path
  deriving Inhabited

namespace Environment

/-- What the names of temporary roots start with. -/
def temporaryMark : String := "kompile-"

/-- The directory for temporary files. -/
def temporaryDir (env : Environment) : Path := ⟨(env.vars.get? "TMPDIR").getD "/tmp"⟩

/-- Where temporary directories are made: below the working directory, unless the directory for
    temporary files is absolute. -/
def temporaryPlace (env : Environment) : Path := env.currentDirectory.join env.temporaryDir

/-- The temporary root under the next random name. -/
def nextTemporary (env : Environment) : Path :=
  env.temporaryPlace / (temporaryMark ++ (env.randomName env.temporaries).text)

/-- The environment after some more names were drawn. -/
def drawn (env : Environment) (count : Nat) : Environment :=
  { env with temporaries := env.temporaries + count }

/-- The most names that are tried for one temporary directory. -/
def temporaryAttempts : Nat := 65536

/-- Makes a new directory under the first of at most `attempts` names that is free, where `next` is
    the path under the next name.  Only a name that is taken is given up for another one.  A failure
    comes with the path that it is about. -/
def makeFree (next : Environment → Path) : Nat → EStateM (IoError × Path) Environment Path
  | 0 => fun env => .error (.other "too many temporary files exist", env.temporaryPlace) env
  | attempts + 1 => fun env =>
    match makeDirectory (next env) (env.drawn 1) with
    | .ok _ made => .ok (next env) made
    | .error cause after =>
      if cause = .alreadyExists then makeFree next attempts after else .error (cause, next env) after

/-- Makes a new directory for temporary files, which stays. -/
def makeTemporary : EStateM ConfigError Environment Path := fun env =>
  match makeFree nextTemporary temporaryAttempts env with
  | .ok path made => .ok path made
  | .error (cause, path) after =>
    .error (.unreadable env.temporaryDir (.io (.other
      (cause.message ++ " at path \"" ++ path.text ++ "\"")))) after

end Environment

namespace Resolution

/-- The workspace root: the configured one, or a new temporary directory. -/
def root (config : Compilation) : EStateM ConfigError Environment Path :=
  match config.workingDir with
  | some directory => pure directory
  | none => Environment.makeTemporary

/-- Refuses a JDK home that is no directory. -/
def checkJdkHome (env : Environment) : Option Path → Except ConfigError Unit
  | some home => if env.isDirectory home then .ok () else .error (.missingJdkHome home)
  | none => .ok ()

/-- The compiler archive for annotation processing, when it has to be added. -/
def neededToolsJar (env : Environment) (jdk : Jdk) (hostClasspath : List Path) :
    Except ConfigError (Option Path) :=
  if !jdk.isPreModular || hasToolsJar hostClasspath then .ok none
  else
    match toolsJar? env jdk.effectiveHome hostClasspath with
    | some jar => .ok (some jar)
    | none => .error (.missingToolsJar ((jdk.version.map JavaVersion.text).getD ""))

/-- The directory of generated Kotlin sources: the user's when it exists, else the workspace's. -/
def generatedKotlin (env : Environment) (config : Compilation) (workspace : Workspace) :
    Except ConfigError Path :=
  match config.generatedKotlinDir? with
  | none => .ok workspace.generatedKotlin
  | some directory =>
    if env.isDirectory directory then .ok directory
    else .error (.missingGeneratedDir generatedKotlinOption directory)

/-- The resolution in a given workspace; nothing is changed any more. -/
def inWorkspace (env : Environment) (config : Compilation) (host : Host) (needsKapt : Bool)
    (workspace : Workspace) : Except ConfigError Resolution := do
  let hostClasspath := host.absoluteClasspath env
  checkJdkHome env config.jdkHome
  let jdk := Jdk.probe host env config.jdkHome
  let runtime := RuntimeJars.discover hostClasspath
  let toolsJar ← if needsKapt then neededToolsJar env jdk hostClasspath else pure none
  let generatedKotlinDir ← generatedKotlin env config workspace
  pure {
    config, workspace, hostClasspath, runtime, jdk, toolsJar, generatedKotlinDir
    classpath := ClassPath.common config.classpaths runtime hostClasspath
      ⟨config.inheritClasspath, config.noStdlib, config.noReflect⟩ }

/-- Settles the defaults of a configuration. -/
def resolve (config : Compilation) (host : Host) (needsKapt : Bool) :
    EStateM ConfigError Environment Resolution := do
  let root ← root config
  let env ← get
  match inWorkspace env config host needsKapt ⟨root⟩ with
  | .ok resolution => pure resolution
  | .error cause => throw cause

/-- Where compiled classes go. -/
def classesDir (resolution : Resolution) : Path := resolution.workspace.classes

/-- The shared class path followed by the compiled classes. -/
def classpathWithOutput (resolution : Resolution) : List Path :=
  resolution.classpath ++ [resolution.classesDir]

end Resolution

end KotlinHarness
