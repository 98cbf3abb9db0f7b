/-
  Configuration errors, with their wording, code and advice.
-/
import KotlinHarness.Files.IoError
import KotlinHarness.Source.Unit

namespace KotlinHarness

/-- The targets that bytecode can be generated for. -/
def jvmTargets : List String :=
  ["1.6", "1.8", "9", "10", "11", "12", "13", "14", "15", "16", "17", "18", "19", "20", "21"]

/-- Why a configuration cannot be used. -/
inductive ConfigError where
  /-- A file could not be read. -/
  | unreadable (path : Path) (cause : ReadError)
  /-- The manifest is no TOML, or its keys and values are not those of a manifest. -/
  | malformedManifest
  /-- The target is unknown; `span` is where its key stands, as offset and length in octets. -/
  | unknownTarget (target : String) (span : Option (Nat × Nat))
  | badSourcePath (path : Path) (reason : SourceFault)
  | missingJdkHome (path : Path)
  /-- Annotation processing on this JDK needs an archive that was not found. -/
  | missingToolsJar (version : String)
  | missingGeneratedDir (option : String) (path : Path)
  deriving DecidableEq, Inhabited

namespace ConfigError

/-- The wording of an error. -/
def message : ConfigError → String
  | unreadable path _ => "failed to read '" ++ path.text ++ "'"
  | malformedManifest => "failed to parse kompile.toml"
  | unknownTarget target _ =>
    "unknown jvm-target '" ++ target ++ "', expected one of: " ++ String.intercalate ", " jvmTargets
  | badSourcePath path _ => "invalid source path '" ++ path.text ++ "'"
  | missingJdkHome path => "JDK home '" ++ path.text ++ "' does not exist"
  | missingToolsJar version =>
    "tools.jar is required by JDK " ++ version ++ " but could not be found"
  | missingGeneratedDir option path =>
    "kapt option '" ++ option ++ "' must point to an existing directory: '" ++ path.text ++ "'"

/-- The code an error is looked up by. -/
def code : ConfigError → String
  | unreadable _ _ => "kompile::io"
  | malformedManifest => "kompile::parse_error"
  | unknownTarget _ _ => "kompile::validation_error"
  | badSourcePath _ _ => "kompile::source_path"
  | missingJdkHome _ => "kompile::jdk_home"
  | missingToolsJar _ => "kompile::tools_jar"
  | missingGeneratedDir _ _ => "kompile::kapt_generated_dir"

/-- What to do about an error. -/
def help? : ConfigError → Option String
  | badSourcePath _ reason =>
    some ("source paths must be relative to the sources root: " ++ reason.message)
  | missingJdkHome _ => some "point jdk-home at a JDK installation directory"
  | missingToolsJar _ =>
    some ("add tools.jar to the classpath, set jdk-home to a JDK that ships lib/tools.jar, "
      ++ "or use a JDK 9+ toolchain")
  | _ => none

end ConfigError

end KotlinHarness
