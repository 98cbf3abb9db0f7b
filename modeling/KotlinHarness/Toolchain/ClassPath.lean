/-
  Class paths.

  `common` is what every stage sees: the user's entries, then the runtime libraries of the host
  unless switched off, then, when asked for, everything on the host's class path.  Of two entries
  that are the same path the first stays.
-/
import KotlinHarness.Toolchain.Process
import KotlinHarness.Toolchain.RuntimeLibrary

namespace KotlinHarness

/-- The runtime libraries found on a class path. -/
structure RuntimeJars where
  stdlib : Option Path
  stdlibCommon : Option Path
  reflect : Option Path
  scriptRuntime : Option Path
  kaptPlugin : Option Path
  deriving DecidableEq, Inhabited

namespace RuntimeJars

/-- For each library the first entry that is it. -/
def discover (entries : List Path) : RuntimeJars where
  stdlib := RuntimeLibrary.stdlib.find? entries
  stdlibCommon := RuntimeLibrary.stdlibCommon.find? entries
  reflect := RuntimeLibrary.reflect.find? entries
  scriptRuntime := RuntimeLibrary.scriptRuntime.find? entries
  kaptPlugin := RuntimeLibrary.kaptPlugin.find? entries

end RuntimeJars

namespace ClassPath

/-- What goes into a common class path besides the user's entries. -/
structure Choice where
  inheritHost : Bool
  noStdlib : Bool
  noReflect : Bool

/-- The libraries that are not switched off. -/
def support (jars : RuntimeJars) (choice : Choice) : List Path :=
  (if choice.noStdlib then [] else jars.stdlib.toList ++ jars.stdlibCommon.toList)
    ++ (if choice.noReflect then [] else jars.reflect.toList)
    ++ jars.scriptRuntime.toList

/-- The class path that all stages share. -/
def common (user : List Path) (jars : RuntimeJars) (host : List Path) (choice : Choice) :
    List Path :=
  Path.dedup (user ++ support jars choice ++ if choice.inheritHost then host else [])

end ClassPath

end KotlinHarness
