/-
  Versions of a Java platform, in both numbering schemes.

  `1.8.0_292` names feature release 8: after a leading 1 the components shift by one.  `17.0.1`
  names feature release 17.  A version keeps the text it was read from.
-/
import KotlinHarness.Text.Decimal
import KotlinHarness.Text.Split

namespace KotlinHarness

/-- A Java platform version. -/
structure JavaVersion where
  /-- The feature release. -/
  major : Nat
  minor : Nat
  patch : Nat
  text : String
  deriving DecidableEq, Inhabited

namespace JavaVersion

/-- The version with the given components, written with dots. -/
def ofComponents (major minor patch : Nat) : JavaVersion :=
  ⟨major, minor, patch, s!"{major}.{minor}.{patch}"⟩

/-- The first release with the module system. -/
def firstModular : Nat := 9

/-- Whether the platform has the module system. -/
def isModular (v : JavaVersion) : Bool := firstModular ≤ v.major

/-- The number at the start of `piece`; none without digits or beyond the bound. -/
def leadingNumber? (piece : List Char) : Option Nat := Text.number? (piece.takeWhile Char.isDigit)

/-- The numbers at the start of `pieces`, up to the first piece without one. -/
def leadingNumbers : List (List Char) → List Nat
  | [] => []
  | piece :: pieces =>
    match leadingNumber? piece with
    | some n => n :: leadingNumbers pieces
    | none => []

/-- Components are separated by any of these. -/
def isSeparator (c : Char) : Bool := c == '.' || c == '_' || c == '+' || c == '-'

/-- `text` without the quotes around it. -/
def unquote (text : List Char) : List Char :=
  Text.dropEndWhile (· == '"') (text.dropWhile (· == '"'))

/-- The part of tool output that holds the version: without quotes around it, without the name of
    the tool in front, up to the next white space. -/
def core (text : List Char) : List Char :=
  let bare := unquote (Text.trim text)
  let named := "javac ".toList.isPrefixOf? bare <|> "java ".toList.isPrefixOf? bare
  Text.firstWord (Text.trim (named.getD bare))

/-- Major, minor and patch from the first component and the ones after it. -/
def shift (first : Nat) (rest : List Nat) : Nat × Nat × Nat :=
  match first, rest with
  | 1, major :: below => (major, below.getD 0 0, below.getD 1 0)
  | major, below => (major, below.getD 0 0, below.getD 1 0)

/-- The version a word without white space spells. -/
def ofWord? (word : List Char) : Option JavaVersion :=
  match Text.splitWhere isSeparator word with
  | [] => none
  | head :: pieces =>
    match leadingNumber? head with
    | none => none
    | some first =>
      let (major, minor, patch) := shift first (leadingNumbers pieces)
      some ⟨major, minor, patch, String.ofList word⟩

/-- Reads a version from a version text or from the line a tool prints. -/
def parse? (text : String) : Option JavaVersion := ofWord? (core text.toList)

/-- The complaint about a text that is no version. -/
def complaint (text : String) : String :=
  "invalid java version '" ++ String.ofList (Text.trim text.toList) ++ "'"

/-! ## Versions in tool output -/

/-- The first text in quotes after `version "`, when the quotes close and hold something. -/
def quotedAfterMarker : List Char → Option (List Char)
  | [] => none
  | c :: rest =>
    let here := ("version \"".toList.isPrefixOf? (c :: rest)).bind fun after =>
      let inside := after.takeWhile (· != '"')
      if inside.isEmpty || (after.drop inside.length).isEmpty then none else some inside
    here <|> quotedAfterMarker rest

/-- The version in what `java -version` prints. -/
def ofJavaOutput? (output : String) : Option JavaVersion :=
  (quotedAfterMarker output.toList).bind fun inside => parse? (String.ofList inside)

/-- The version in what `javac -version` prints: the first line that starts with the tool's name. -/
def ofJavacOutput? (output : String) : Option JavaVersion :=
  (((Text.lines output.toList).map Text.trim).find? ("javac ".toList.isPrefixOf ·)).bind
    fun line => parse? (String.ofList line)

/-- The version in the text of a `release` file. -/
def ofReleaseFile? (content : String) : Option JavaVersion :=
  ((Text.lines content.toList).findSome? ("JAVA_VERSION=".toList.isPrefixOf? ·)).bind
    fun value => parse? (String.ofList value)

end JavaVersion

end KotlinHarness
