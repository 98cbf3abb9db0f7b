/-
  Staging: source units become files below a root.

  `stage` writes the units in turn and leaves files with the right content alone; other files
  below the root stay as they are.  `findSources` lists the files of a language below a directory.
-/
import KotlinHarness.Files.Deposit
import KotlinHarness.Source.Unit

namespace KotlinHarness

/-- A source unit that was written to disk. -/
structure StagedSource where
  path : Path
  language : Option Language
  deposit : Deposit
  deriving DecidableEq, Inhabited

namespace SourceUnit

/-- Writes a unit below a root. -/
def stage (root : Path) (unit : SourceUnit) : EnvironmentAction StagedSource := do
  let path := root.join unit.path
  let deposit ← (Environment.deposit .ifChanged path unit.content).during (.staging unit.path)
  pure ⟨path, unit.language, deposit⟩

/-- Writes units below a root, one after the other. -/
def stageAll (root : Path) : List SourceUnit → EnvironmentAction (List StagedSource)
  | [] => pure []
  | unit :: rest => do
    let first ← unit.stage root
    let others ← stageAll root rest
    pure (first :: others)

end SourceUnit

namespace StagedSource

/-- The paths of the staged sources of a language, in staging order. -/
def ofLanguage (language : Language) (staged : List StagedSource) : List Path :=
  (staged.filter (·.language = some language)).map StagedSource.path

end StagedSource

/-- The files of a language below a directory, depth first in the order of names; none when the
    directory is missing. -/
def findSources (env : Environment) (directory : Path) (language : Language) : List Path :=
  (env.listFiles directory).filter fun path => Language.ofPath? path = some language

end KotlinHarness
