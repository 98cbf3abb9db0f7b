/-
  The manifest, `kompile.toml`: compiler options and source roots.

  `[compilation]` holds the options of a `Compilation` under their dashed names, `[sources]` the
  list `roots`.  Unknown keys and values of another type are refused.  A table may also be written
  as an array of its values in the order of the keys; missing ones keep their defaults.
-/
import KotlinHarness.Files.Environment
import KotlinHarness.Manifest.Compilation
import KotlinHarness.Manifest.Error
import KotlinHarness.Toml.Document

namespace KotlinHarness

/-- The content of a manifest. -/
structure Manifest where
  compilation : Compilation
  /-- Directories whose files are sources. -/
  roots : List Path

namespace Manifest

open Toml

/-! ## Values of the expected type -/

def text? : Value → Option String
  | .string text => some text
  | _ => none

def flag? : Value → Option Bool
  | .boolean value => some value
  | _ => none

def texts? : Value → Option (List String)
  | .array items _ => items.mapM text?
  | _ => none

/-- A table of texts; a moment counts as a table with one private key. -/
def options? : Value → Option Options
  | .table _ entries =>
    (entries.mapM fun entry => (text? entry.2).map ((entry.1, ·))).map Options.ofList
  | .moment moment => some [("$__toml_private_datetime", moment.text)]
  | _ => none

/-- The keys of `[compilation]`, in order. -/
def compilationKeys : List String :=
  ["working-dir", "classpaths", "inherit-classpath", "kapt-args", "correct-error-types",
    "kotlinc-arguments", "javac-arguments", "jdk-home", "kotlinc", "no-stdlib", "no-reflect",
    "jvm-target", "module-name", "verbose", "all-warnings-as-errors", "suppress-warnings"]

/-- `config` with the option `key` set; none for an unknown key and a value of another type. -/
def setOption (config : Compilation) (key : String) (value : Value) : Option Compilation :=
  match key with
  | "working-dir" => (text? value).map fun t => { config with workingDir := some ⟨t⟩ }
  | "classpaths" => (texts? value).map fun ts => { config with classpaths := ts.map Path.mk }
  | "inherit-classpath" => (flag? value).map fun b => { config with inheritClasspath := b }
  | "kapt-args" => (options? value).map fun o => { config with kaptArgs := o }
  | "correct-error-types" => (flag? value).map fun b => { config with correctErrorTypes := b }
  | "kotlinc-arguments" => (texts? value).map fun ts => { config with kotlincArguments := ts }
  | "javac-arguments" => (texts? value).map fun ts => { config with javacArguments := ts }
  | "jdk-home" => (text? value).map fun t => { config with jdkHome := some ⟨t⟩ }
  | "kotlinc" => (text? value).map fun t => { config with kotlinc := some ⟨t⟩ }
  | "no-stdlib" => (flag? value).map fun b => { config with noStdlib := b }
  | "no-reflect" => (flag? value).map fun b => { config with noReflect := b }
  | "jvm-target" => (text? value).map fun t => { config with jvmTarget := some t }
  | "module-name" => (text? value).map fun t => { config with moduleName := some t }
  | "verbose" => (flag? value).map fun b => { config with verbose := b }
  | "all-warnings-as-errors" => (flag? value).map fun b => { config with allWarningsAsErrors := b }
  | "suppress-warnings" => (flag? value).map fun b => { config with suppressWarnings := b }
  | _ => none

/-- The entries of a table whose keys are known, or of an array of values in the order of the
    keys. -/
def entriesOf? (keys : List String) : Value → Option Entries
  | .table _ entries => some entries
  | .array items _ => some (keys.zip items)
  | _ => none

def compilation? (value : Value) : Option Compilation := do
  let entries ← entriesOf? compilationKeys value
  entries.foldlM (fun config entry => setOption config entry.1 entry.2) {}

def roots? (value : Value) : Option (List Path) := do
  let entries ← entriesOf? ["roots"] value
  entries.foldlM (fun _ entry =>
    if entry.1 = "roots" then (texts? entry.2).map (·.map Path.mk) else none) []

/-- The manifest of a document. -/
def ofEntries? (entries : Entries) : Option Manifest :=
  entries.foldlM (fun manifest entry =>
    if entry.1 = "compilation" then
      (compilation? entry.2).map fun config => { manifest with compilation := config }
    else if entry.1 = "sources" then
      (roots? entry.2).map fun roots => { manifest with roots := roots }
    else none) ⟨{}, []⟩

/-- The key of the target, as it is looked for in the text. -/
def targetKey : String := "jvm-target"

/-- Where the key of the target first stands in a text, as offset and length in octets. -/
def targetSpan? (content : String) : Option (Nat × Nat) :=
  (Text.before? targetKey.toList content.toList).map fun before =>
    ((Text.encode (String.ofList before)).length, (Text.encode targetKey).length)

/-- Reads a manifest from its text. -/
def parse (content : String) : Except ConfigError Manifest :=
  match (document? content).bind ofEntries? with
  | none => .error .malformedManifest
  | some manifest =>
    match manifest.compilation.jvmTarget with
    | none => .ok manifest
    | some target =>
      if jvmTargets.contains target then .ok manifest
      else .error (.unknownTarget target (targetSpan? content))

end Manifest

/-! ## Sources below a root -/

/-- The file that `names` lead to from `root`, as a source unit. -/
def loadSource (env : Environment) (root : Path) (names : Location) :
    Except ConfigError SourceUnit :=
  let place := Path.ofSegments names
  match env.readText (root.extend names) with
  | .error cause => .error (.unreadable (root.extend names) (.io cause))
  | .ok content =>
    match SourceUnit.ofPath place content with
    | .ok unit => .ok unit
    | .error reason => .error (.badSourcePath place reason)

/-- One step of a walk below `root`: a directory is listed, a file is loaded. -/
def loadEntry (env : Environment) (root : Path) :
    Location × Bool → Except ConfigError (Option SourceUnit)
  | (names, true) =>
    match env.namesIn (root.extend names) with
    | .error cause => .error (.unreadable (root.extend names) (.listing (root.extend names) cause))
    | .ok _ => .ok none
  | (names, false) => (loadSource env root names).map some

/-- Every file at or below `root` as a source unit, named by its place below the root, depth first
    in the order of names. -/
def loadSources (env : Environment) (root : Path) : Except ConfigError (List SourceUnit) :=
  match env.locate root with
  | .error cause => .error (.unreadable root (.listing root cause))
  | .ok (_, .file _) => (loadSource env root []).map ([·])
  | .ok (_, .directory children) =>
    (children.listing.mapM (loadEntry env root)).map (·.filterMap id)

/-! ## Manifest files -/

/-- A manifest with the path it was read from. -/
structure ManifestFile where
  path : Path
  manifest : Manifest

namespace ManifestFile

/-- Reads a manifest file. -/
def load (env : Environment) (path : Path) : Except ConfigError ManifestFile :=
  match env.readText path with
  | .error cause => .error (.unreadable path (.io cause))
  | .ok content => (Manifest.parse content).map fun manifest => ⟨path, manifest⟩

/-- The directory that relative paths of the manifest are read from. -/
def baseDir (file : ManifestFile) : Path :=
  match file.path.parent? with
  | some parent => if parent.isEmpty then ⟨"."⟩ else parent
  | none => ⟨"."⟩

/-- The configuration of the manifest: relative paths read from its directory, and every file
    below the source roots as a source. -/
def compilation (env : Environment) (file : ManifestFile) : Except ConfigError Compilation := do
  let units ← file.manifest.roots.mapM fun root => loadSources env (file.baseDir.join root)
  let config := file.manifest.compilation.mapPaths file.baseDir.join
  pure { config with sources := config.sources ++ units.flatten }

end ManifestFile

end KotlinHarness
