/-
  Reading what the Java compiler prints.

  A diagnostic starts with a line `<path>.java:<number>: error: <message>` (or `warning`), or with
  a line that begins `error: `, `warning: ` or `Note: `.  Lines that start none continue the one
  before; blank lines and the counts of errors and warnings at the end belong to nothing.
-/
import KotlinHarness.Messages.Diagnostic
import KotlinHarness.Text.Decimal

namespace KotlinHarness.JavaCompiler

/-- What is left of `text` after the first of `heads` that it starts with, and the value of that
    head. -/
def afterHead? {α : Type} (heads : List (String × α)) (text : List Char) : Option (α × List Char) :=
  heads.findSome? fun (head, value) => (head.toList.isPrefixOf? text).map ((value, ·))

/-- A line number in decimal digits; 0 for one that is not in ASCII or beyond 32 bits. -/
def lineNumber (digits : List Char) : Nat := (Text.number? digits).getD 0

/-- Number, severity and message of `:<number>: <severity>: <message>`. -/
def afterSource? : List Char → Option (List Char × Severity × List Char)
  | ':' :: rest =>
    let digits := rest.takeWhile Text.isDecimal
    if digits.isEmpty then none
    else
      (afterHead? [(": error: ", .error), (": warning: ", .warning)] (rest.drop digits.length)).map
        fun (severity, message) => (digits, severity, message)
  | _ => none

/-- The extension that ends the path of a diagnostic. -/
def sourceExtension : List Char := ".java".toList

/-- Path, number, severity and message of a line that is about a place in a source.  The path ends
    at the first extension from which the rest of the line can be read. -/
def placed? : List Char → Option (List Char × List Char × Severity × List Char)
  | [] => none
  | c :: rest =>
    match (sourceExtension.isPrefixOf? (c :: rest)).bind afterSource? with
    | some found => some (sourceExtension, found)
    | none => (placed? rest).map fun (path, found) => (c :: path, found)

/-- The diagnostic that a line starts. -/
def startOf? (line : List Char) : Option Diagnostic :=
  match placed? line with
  | some (path, digits, severity, message) =>
    some ((Diagnostic.plain severity (String.ofList message)).placedAt ⟨String.ofList path⟩
      (lineNumber digits))
  | none =>
    (afterHead? [("error: ", .error), ("warning: ", .warning), ("Note: ", .note)] line).map
      fun (severity, message) => .plain severity (String.ofList message)

/-- Whether a line counts errors or warnings. -/
def isSummary (line : List Char) : Bool :=
  let digits := line.takeWhile Text.isDecimal
  let rest := String.ofList (line.drop digits.length)
  !digits.isEmpty && [" error", " errors", " warning", " warnings"].contains rest

/-- Whether a line belongs to nothing. -/
def isIdle (line : List Char) : Bool := (Text.trim line).isEmpty || isSummary (Text.trim line)

/-- The diagnostics after a further line. -/
def readLine (collector : Collector) (line : List Char) : Collector :=
  if isIdle line then collector
  else
    match startOf? line with
    | some diagnostic => collector.report diagnostic
    | none => (collector.continueLast (String.ofList line)).1

/-- The diagnostics in the output of the compiler. -/
def readOutput (output : String) : Collector := (Text.lines output.toList).foldl readLine .empty

end KotlinHarness.JavaCompiler
