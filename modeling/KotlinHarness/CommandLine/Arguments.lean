/-
  Reading the arguments of a command line.

  Flags are `--name`, `--name=value`, `--name value`, or single letters after one dash, where a
  letter that takes a value takes what follows it.  A value may be a lone dash but no flag, and is
  not empty.  No flag may be given twice at one level.  The first thing that cannot be read, and
  the first request for help or the version, decides.
-/
import KotlinHarness.Path

namespace KotlinHarness.CommandLine

/-- What a flag does. -/
inductive FlagKind where
  | switch
  /-- Takes a value. -/
  | option
  | help
  | version
  deriving DecidableEq

/-- A flag that a command knows. -/
structure Flag where
  long : String
  short : Option Char
  kind : FlagKind

/-- The flags given so far, with their values. -/
abbrev Given := List (String × String)

/-- What one argument leads to. -/
inductive Step where
  | refused
  | help
  | version
  /-- Flags were read. -/
  | taken (given : Given)
  /-- The flag `name` waits for its value. -/
  | awaiting (name : String) (given : Given)
  /-- The argument is no flag. -/
  | word

/-- What all arguments, or those before the first that is no flag, lead to. -/
inductive Reading where
  | refused
  | help
  | version
  | upTo (given : Given) (rest : List String)

namespace Given

def get? (given : Given) (name : String) : Option String :=
  (given.find? (·.1 == name)).map (·.2)

def has (given : Given) (name : String) : Bool := (given.get? name).isSome

/-- One more flag with its value; refused when it was given before, or without value when it needs
    one. -/
def add (given : Given) (name value : String) : Step :=
  if given.has name || value.isEmpty then .refused else .taken ((name, value) :: given)

end Given

/-- What a switch has for a value. -/
def switchedOn : String := "on"

/-- A flag written out, with the value after its equals sign. -/
def readLong (flags : List Flag) (given : Given) (name : String) (value : Option String) : Step :=
  match flags.find? (·.long == name) with
  | none => .refused
  | some flag =>
    match flag.kind, value with
    | .switch, none => given.add name switchedOn
    | .help, none => .help
    | .version, none => .version
    | .option, none => .awaiting name given
    | .option, some value => given.add name value
    | _, some _ => .refused

/-- Single letters after one dash. -/
def readLetters (flags : List Flag) (given : Given) : List Char → Step
  | [] => .taken given
  | letter :: rest =>
    match flags.find? (·.short == some letter) with
    | none => .refused
    | some flag =>
      match flag.kind with
      | .help => .help
      | .version => .version
      | .switch =>
        match given.add flag.long switchedOn with
        | .taken given => readLetters flags given rest
        | other => other
      | .option =>
        match rest with
        | [] => .awaiting flag.long given
        | '=' :: value => given.add flag.long (String.ofList value)
        | value => given.add flag.long (String.ofList value)

/-- One argument. -/
def readArgument (flags : List Flag) (given : Given) (arg : String) : Step :=
  match arg.toList with
  | ['-', '-'] => .word
  | '-' :: '-' :: text =>
    let name := text.takeWhile (· != '=')
    let value := (text.drop name.length).tail?
    readLong flags given (String.ofList name) (value.map String.ofList)
  | '-' :: letter :: rest => readLetters flags given (letter :: rest)
  | _ => .word

/-- Whether an argument can be the value of the flag before it. -/
def isValue (arg : String) : Bool := arg = "-" || arg.toList.head? != some '-'

/-- Reads flags; `pending` waits for its value. -/
def readFlags (flags : List Flag) : Given → Option String → List String → Reading
  | given, none, [] => .upTo given []
  | _, some _, [] => .refused
  | given, some name, arg :: rest =>
    match if isValue arg then given.add name arg else .refused with
    | .taken given => readFlags flags given none rest
    | _ => .refused
  | given, none, arg :: rest =>
    match readArgument flags given arg with
    | .refused => .refused
    | .help => .help
    | .version => .version
    | .taken given => readFlags flags given none rest
    | .awaiting name given => readFlags flags given (some name) rest
    | .word => .upTo given (arg :: rest)

/-! ## Commands -/

/-- What a command line asks for. -/
inductive Request where
  | compile (config : Path) (workingDir : Option Path) (json : Bool)
  | probe (jdkHome : Option Path) (json : Bool)
  | completions (shell : String)
  | help
  | version
  /-- The command line cannot be read. -/
  | refused
  deriving DecidableEq

/-- Logs progress; known everywhere. -/
def verboseFlag : Flag := ⟨"verbose", some 'v', .switch⟩

def helpFlag : Flag := ⟨"help", some 'h', .help⟩

def versionFlag : Flag := ⟨"version", some 'V', .version⟩

def configFlag : Flag := ⟨"config", some 'c', .option⟩

def workingDirFlag : Flag := ⟨"working-dir", some 'w', .option⟩

def jdkHomeFlag : Flag := ⟨"jdk-home", none, .option⟩

def jsonFlag : Flag := ⟨"json", none, .switch⟩

/-- The manifest that is read when none is named. -/
def defaultConfig : Path := ⟨"kompile.toml"⟩

def shells : List String := ["bash", "elvish", "fish", "powershell", "zsh"]

def commandNames : List String := ["compile", "probe", "completions", "help"]

/-- Reads the arguments of a command that takes flags alone. -/
def readOnlyFlags (flags : List Flag) (args : List String) (build : Given → Request) : Request :=
  match readFlags (flags ++ [verboseFlag, helpFlag]) [] none args with
  | .refused => .refused
  | .help => .help
  | .version => .version
  | .upTo given rest => if rest.isEmpty || rest = ["--"] then build given else .refused

def readCompile (args : List String) : Request :=
  readOnlyFlags [configFlag, workingDirFlag, jsonFlag] args fun given =>
    .compile (((given.get? "config").map Path.mk).getD defaultConfig)
      ((given.get? "working-dir").map Path.mk) (given.has "json")

def readProbe (args : List String) : Request :=
  readOnlyFlags [jdkHomeFlag, jsonFlag] args fun given =>
    .probe ((given.get? "jdk-home").map Path.mk) (given.has "json")

/-- The only word of a command, when it is the name of a shell. -/
def shellOf : List String → Request
  | [shell] => if shells.contains shell then .completions shell else .refused
  | _ => .refused

def readCompletions (args : List String) : Request :=
  match readFlags [verboseFlag, helpFlag] [] none args with
  | .refused => .refused
  | .help => .help
  | .version => .version
  | .upTo _ ("--" :: words) => shellOf words
  | .upTo _ [] => .refused
  | .upTo given (shell :: rest) =>
    match readFlags [verboseFlag, helpFlag] given none rest with
    | .upTo _ rest => if rest.isEmpty || rest = ["--"] then shellOf [shell] else .refused
    | .help => if shells.contains shell then .help else .refused
    | _ => .refused

/-- Reads the command `name` with the arguments after it. -/
def readCommand (name : String) (args : List String) : Request :=
  match name with
  | "compile" => readCompile args
  | "probe" => readProbe args
  | "completions" => readCompletions args
  | "help" =>
    match args with
    | [] => .help
    | [command] => if commandNames.contains command then .help else .refused
    | _ => .refused
  | _ => .refused

/-- Reads a command line. -/
def read (args : List String) : Request :=
  match readFlags [verboseFlag, helpFlag, versionFlag] [] none args with
  | .refused => .refused
  | .help => .help
  | .version => .version
  | .upTo _ [] => .refused
  | .upTo _ (name :: rest) => readCommand name rest

end KotlinHarness.CommandLine
