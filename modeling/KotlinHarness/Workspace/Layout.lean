/-
  The directories of a compile call.

      <root>/
        sources/                 staged source units
        classes/                 compilation output
        kapt/sources/            generated Java sources
        kapt/stubs/              Java stubs of Kotlin sources
        kapt/incrementalData/
        kapt/kotlinGenerated/    generated Kotlin sources
        kapt/registrar/          the listing of compiler plugins
        kapt/placeholder/        an empty Kotlin source for Java-only processing
-/
import KotlinHarness.Files.Deposit

namespace KotlinHarness

/-- A workspace, given by its root. -/
structure Workspace where
  root : Path
  deriving DecidableEq, Inhabited

namespace Workspace

def sources (workspace : Workspace) : Path := workspace.root / "sources"

def classes (workspace : Workspace) : Path := workspace.root / "classes"

def kapt (workspace : Workspace) : Path := workspace.root / "kapt"

def generatedJava (workspace : Workspace) : Path := workspace.kapt / "sources"

def stubs (workspace : Workspace) : Path := workspace.kapt / "stubs"

def incrementalData (workspace : Workspace) : Path := workspace.kapt / "incrementalData"

def generatedKotlin (workspace : Workspace) : Path := workspace.kapt / "kotlinGenerated"

def registrar (workspace : Workspace) : Path := workspace.kapt / "registrar"

def placeholder (workspace : Workspace) : Path := workspace.kapt / "placeholder"

/-- The directories that every compile call starts with. -/
def directories (workspace : Workspace) : List Path :=
  [workspace.sources, workspace.classes, workspace.generatedJava, workspace.stubs,
    workspace.incrementalData, workspace.generatedKotlin]

/-- Creates directories in turn. -/
def createAll : List Path → EnvironmentAction Unit
  | [] => pure ()
  | directory :: rest => do
    Environment.ensureDirectory directory
    createAll rest

/-- Creates the directories of the workspace; what is there already stays. -/
def create (workspace : Workspace) : EnvironmentAction Unit := createAll workspace.directories

end Workspace

end KotlinHarness
