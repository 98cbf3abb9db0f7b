/-
  A rehearsed Java compiler service.

  It wants balanced braces and imports that resolve against the class path, and then writes class
  file headers.  It can be made to fail its first call.
-/
import KotlinHarness.JavaCompiler.Service
import KotlinHarness.Rehearsal.Output

namespace KotlinHarness.Rehearsal

variable {σ : Type}

/-- The argument after the first occurrence of a flag. -/
def flagValue? (flag : String) : List String → Option String
  | [] => none
  | arg :: rest => if arg = flag then rest.head? else flagValue? flag rest

/-- Whether an imported name belongs to the platform. -/
def isPlatformName (name : String) : Bool :=
  "java.".toList.isPrefixOf name.toList || "javax.".toList.isPrefixOf name.toList

/-- The class file of an imported name, below a class path entry. -/
def importedFile (name : String) : Path :=
  ((⟨""⟩ : Path).extend ((Text.splitOn '.' name.toList).map String.ofList)).withExtension "class"

/-- Whether an import can be satisfied. -/
def resolves (env : Environment) (classpath : List Path) (name : String) : Bool :=
  isPlatformName name || classpath.any fun entry => env.isFile (entry.join (importedFile name))

/-- The number of the line on which a position falls. -/
def lineAt (content : List Char) (position : Nat) : Nat :=
  (Text.lines (content.take position)).length + 1

/-- The complaint about braces. -/
def braceErrors (source : Path) (content : String) : List Diagnostic :=
  if isBalanced content then []
  else [(Diagnostic.plain .error "reached end of file while parsing").placedAt source 1]

/-- A complaint for every import that cannot be satisfied. -/
def importErrors (env : Environment) (classpath : List Path) (source : Path) (content : String) :
    List Diagnostic :=
  ((Source.imports content.toList).filter fun found => !resolves env classpath found.2).map
    fun (position, name) =>
      (Diagnostic.plain .error ("cannot find symbol " ++ name)).placedAt source
        (lineAt content.toList position)

/-- The diagnostics of sources, up to the first that cannot be read. -/
def check (env : Environment) (classpath : List Path) : List Path → Option IoError × List Diagnostic
  | [] => (none, [])
  | source :: rest =>
    match env.readText source with
    | .error cause => (some cause, [])
    | .ok content =>
      let (cause, others) := check env classpath rest
      (cause, braceErrors source content ++ importErrors env classpath source content ++ others)

/-- The sources among arguments. -/
def sourcesAmong (args : List String) : List Path :=
  (args.filter fun arg => ".java".toList.isSuffixOf arg.toList).map Path.mk

/-- The class path among arguments. -/
def classpathAmong (args : List String) : List Path :=
  ((flagValue? "-cp" args).map Path.splitList).getD []

/-- Writes the class files of checked sources. -/
def writeAnswer (destination : Path) (sources : List Path) (diagnostics : Collector)
    (machine : Machine σ) : ServiceAnswer × Machine σ :=
  match writeClasses destination sources machine.environment with
  | .ok _ environment => (⟨.ok true, diagnostics⟩, { machine with environment })
  | .error cause environment =>
    (⟨.error (.breakdown cause.line), diagnostics⟩, { machine with environment })

/-- One call that is not made to fail. -/
def compileJava (args : List String) (machine : Machine σ) : ServiceAnswer × Machine σ :=
  match flagValue? "-d" args with
  | none => (⟨.error (.invalidArgument "missing -d"), .empty⟩, machine)
  | some destination =>
    let sources := sourcesAmong args
    match check machine.environment (classpathAmong args) sources with
    | (some cause, found) => (⟨.error (.io cause), ⟨found⟩⟩, machine)
    | (none, found) =>
      if Collector.hasErrors ⟨found⟩ then (⟨.ok false, ⟨found⟩⟩, machine)
      else writeAnswer ⟨destination⟩ sources ⟨found⟩ machine

/-- Whether a rehearsed service was called before. -/
def wasCalled (machine : Machine σ) : Bool := machine.calls.any (·.serviceArgs?.isSome)

/-- The rehearsed service; with a failure, the first call fails with it. -/
def javaService (failure : Option ServiceError) : JavaService σ where
  name := "fake-javac"
  compile args machine :=
    let noted := { machine with calls := machine.calls ++ [.service args] }
    match failure, wasCalled machine with
    | some error, false => (⟨.error error, .empty⟩, noted)
    | _, _ => compileJava args noted

end KotlinHarness.Rehearsal
