/-
  The host: the toolchain that compilations use when the configuration names none.

    * `Host.system`   the Kotlin distribution, class path and JDK that the variables lead to
    * `Host.fixed`    a host whose answers are given, for tests
    * `Jdk.probe`     which JDK is in use, and whether it has the module system
    * `toolsJar?`     the compiler archive that a JDK before the module system needs
-/
import KotlinHarness.Toolchain.ClassPath
import KotlinHarness.Toolchain.Version

namespace KotlinHarness

/-- What is asked about a host. -/
structure Host where
  /-- Class path entries in the order found, perhaps repeated. -/
  classpath : Environment → List Path
  /-- The JDK the host's tools run on. -/
  jdkHome : Environment → Option Path
  /-- The version of the JDK at a home. -/
  jdkVersion : Environment → Path → Option JavaVersion

namespace Host

/-! ## The host of the running harness -/

/-- The version in the `release` file of a JDK. -/
def releaseVersion? (env : Environment) (home : Path) : Option JavaVersion :=
  match env.readText (home / "release") with
  | .ok content => JavaVersion.ofReleaseFile? content
  | .error _ => none

/-- The home of a distribution whose tool stands two levels below it, as its `bin/<tool>`. -/
def homeOfTool? (env : Environment) (tool : Path) : Option Path :=
  ((env.canonical? tool).getD tool).parent?.bind Path.parent?

/-- The library directory of the Kotlin distribution. -/
def kotlinLibDir? (env : Environment) : Option Path :=
  match env.vars.get? "KOTLIN_HOME" with
  | some home => some ((⟨home⟩ : Path) / "lib")
  | none => ((env.which "kotlinc").bind (homeOfTool? env)).map (· / "lib")

/-- The archives in a directory, in the order of names. -/
def jarsIn (env : Environment) (directory : Path) : List Path :=
  match env.namesIn directory with
  | .ok names => (names.map (directory / ·)).filter fun path => path.extension? = some "jar"
  | .error _ => []

/-- The entries of the class path variable, then the archives of the Kotlin distribution. -/
def systemClasspath (env : Environment) : List Path :=
  let listed := ((env.vars.get? "CLASSPATH").map Path.splitList).getD []
  listed.filter (! ·.isEmpty) ++ ((kotlinLibDir? env).map (jarsIn env)).getD []

/-- The JDK that the variable names, or else the one whose compiler is on the search path. -/
def systemJdkHome (env : Environment) : Option Path :=
  match env.vars.get? "JAVA_HOME" with
  | some home => some ⟨home⟩
  | none => (env.which "javac").bind (homeOfTool? env)

/-- The version in the release file, or else the one `java` prints. -/
def systemJdkVersion (env : Environment) (home : Path) : Option JavaVersion :=
  match releaseVersion? env home with
  | some version => some version
  | none =>
    (env.capture? { program := home / "bin" / "java", arguments := ["-version"] }).bind
      JavaVersion.ofJavaOutput?

/-- The host of the running harness. -/
def system : Host := ⟨systemClasspath, systemJdkHome, systemJdkVersion⟩

/-! ## A host with given answers -/

/-- A host with a class path, a home and the versions of some homes; of two versions for one home
    the later counts. -/
def fixed (classpath : List Path) (jdkHome : Option Path) (jdks : List (Path × JavaVersion)) :
    Host where
  classpath := fun _ => classpath
  jdkHome := fun _ => jdkHome
  jdkVersion := fun _ home => (jdks.reverse.find? (·.1.sameAs home)).map (·.2)

/-! ## What a compile call takes from the host -/

/-- The host's class path in absolute spelling, without repetitions; an entry without absolute
    spelling stays as it is. -/
def absoluteClasspath (host : Host) (env : Environment) : List Path :=
  Path.dedup ((host.classpath env).map fun entry =>
    (entry.absolute? env.currentDirectory).getD entry)

end Host

/-- The JDK that a compile call runs against. -/
structure Jdk where
  /-- The home that the configuration names. -/
  explicitHome : Option Path
  hostHome : Option Path
  /-- The version of the explicit JDK, or of the host's when none is named. -/
  version : Option JavaVersion
  hostVersion : Option JavaVersion
  deriving DecidableEq, Inhabited

namespace Jdk

/-- The JDK in use: at `explicitHome` when given, else the host's. -/
def probe (host : Host) (env : Environment) (explicitHome : Option Path) : Jdk :=
  let hostHome := host.jdkHome env
  let hostVersion := hostHome.bind (host.jdkVersion env)
  { explicitHome, hostHome, hostVersion
    version :=
      match explicitHome with
      | some home => host.jdkVersion env home
      | none => hostVersion }

/-- Where files of the JDK are looked for. -/
def effectiveHome (jdk : Jdk) : Option Path := jdk.explicitHome <|> jdk.hostHome

/-- Whether the JDK in use is known to lack the module system. -/
def isPreModular (jdk : Jdk) : Bool := jdk.version.any (! ·.isModular)

/-- Whether the host's JDK has the module system, as is assumed of an unknown one. -/
def hostIsModular (jdk : Jdk) : Bool := jdk.hostVersion.all (·.isModular)

end Jdk

/-! ## The compiler archive of older JDKs -/

/-- The file name of the archive. -/
def toolsJarName : String := "tools.jar"

/-- Whether a class path entry is the archive. -/
def isToolsJar (path : Path) : Bool := path.fileName? = some toolsJarName

/-- Whether the archive is on a class path. -/
def hasToolsJar (entries : List Path) : Bool := entries.any isToolsJar

/-- The archive below a JDK home, or else on a class path. -/
def toolsJar? (env : Environment) (jdkHome : Option Path) (entries : List Path) : Option Path :=
  (jdkHome.map (· / "lib" / toolsJarName)).filter env.isFile <|> entries.find? isToolsJar

end KotlinHarness
