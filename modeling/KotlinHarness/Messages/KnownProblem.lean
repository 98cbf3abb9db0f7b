/-
  Misconfigurations that compiler output gives away.
-/
import KotlinHarness.Text.Split

namespace KotlinHarness

/-- A misconfiguration with a marker in compiler output. -/
inductive KnownProblem where
  /-- A `tools.jar` older than the module system in a JDK that has it. -/
  | toolsJarOnModularJdk
  /-- Java compiled without a JDK and without the host's class path. -/
  | missingPlatformClasses
  deriving DecidableEq, Inhabited

namespace KnownProblem

def name : KnownProblem → String
  | toolsJarOnModularJdk => "ToolsJarOnModularJdk"
  | missingPlatformClasses => "MissingPlatformClasses"

/-- The text that reveals the problem. -/
def marker : KnownProblem → String
  | toolsJarOnModularJdk => "No enum constant com.sun.tools.javac.main.Option.BOOT_CLASS_PATH"
  | missingPlatformClasses => "Unable to find package java.lang in classpath or bootclasspath"

def advice : KnownProblem → String
  | toolsJarOnModularJdk =>
    "a tools.jar from a JDK 8 or older was used with a JDK 9 or newer. "
      ++ "Remove tools.jar from the classpath, or set jdk_home to a JDK 8 "
      ++ "installation if you compile against JDK 8."
  | missingPlatformClasses =>
    "javac could not find the JDK classes. Set jdk_home to a JDK "
      ++ "installation, or enable inherit_classpath so the host's classes "
      ++ "are visible."

/-- All problems, in the order they are looked for. -/
def all : List KnownProblem := [toolsJarOnModularJdk, missingPlatformClasses]

/-- The problems whose marker occurs in a text. -/
def inText (text : String) : List KnownProblem :=
  all.filter fun problem => Text.occursIn problem.marker.toList text.toList

/-- The warning printed for a problem. -/
def warning (problem : KnownProblem) : String := "warning: " ++ problem.advice ++ "\n"

end KnownProblem

end KotlinHarness
