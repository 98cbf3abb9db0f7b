/-
  A rehearsed Kotlin front end.

  It refuses sources with unbalanced braces.  Compiling writes class file headers; for stubs it
  writes a Java stub of every Kotlin type, with its annotations, and then runs the compiler
  plugins.
-/
import KotlinHarness.Frontend.Launcher
import KotlinHarness.Rehearsal.Output

namespace KotlinHarness.Rehearsal

variable {σ : Type}

/-- The Java keyword for a stub; Java has no object, and a record's stub is a class. -/
def stubKeyword : ElementKind → String
  | .interface => "interface"
  | .enum => "enum"
  | .annotationType => "@interface"
  | _ => "class"

/-- The package clause of a stub. -/
def stubPackage (element : Element) : String :=
  match element.package with
  | some package => "package " ++ package ++ ";\n\n"
  | none => ""

/-- The Java stub of an element. -/
def stub (element : Element) : String :=
  stubPackage element
    ++ String.join (element.annotations.map fun name => "@" ++ name ++ "\n")
    ++ "public " ++ stubKeyword element.kind ++ " " ++ element.name ++ " \x7b\x7d\n"

/-- Writes the stub of an element. -/
def writeStub (stubs : Path) (element : Element) : EnvironmentAction Unit := do
  let _ ← Environment.deposit .always (elementPath stubs element "java") (stub element)

/-- Writes the stubs of all types declared in sources, when the arguments name a directory for
    them. -/
def writeStubs (args : FrontendArguments) : EnvironmentAction Unit :=
  match args.pluginOption kaptPluginId "stubs" with
  | [] => pure ()
  | stubs :: _ =>
    forEach (fun source => do
      let content ← readSource source
      forEach (writeStub ⟨stubs⟩) (typesOf source content)) args.sources

/-- Complains about every source with unbalanced braces; whether there was none. -/
def checkBraces : List Path → MachineAction σ Bool
  | [] => pure true
  | source :: rest => do
    let content ← Machine.onEnvironment (readSource source)
    if isBalanced content then checkBraces rest
    else
      Machine.printLine ("e: " ++ source.text ++ ": Expecting '\x7d'")
      let _ ← checkBraces rest
      pure false

/-- What is done for sources without complaint. -/
def carryOut (args : FrontendArguments) : MachineAction σ ExitCode := do
  match args.mode with
  | .compile =>
    Machine.onEnvironment (writeClasses args.destination args.sources)
    pure .ok
  | .stubs =>
    Machine.onEnvironment (writeStubs args)
    Plugin.runAll args

/-- The rehearsed front end. -/
def frontend : Frontend σ where
  name := "fake-kotlinc"
  exec args := do
    Machine.noteCall (.frontend args)
    if ← checkBraces args.sources then carryOut args else pure .compilationError

end KotlinHarness.Rehearsal
