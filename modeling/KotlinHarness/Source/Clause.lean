/-
  Clauses of source code: package clauses, import statements and declarations.

  Each recognizer looks at one position and says what it found there and how many characters that
  takes; the scanners walk over the text from the left and resume after what was found.  A
  declaration is tried with as many leading annotations as possible, then fewer, and for each of
  these with as many modifiers as possible, then fewer: `enum` and `@interface` may belong to
  either side.
-/
import KotlinHarness.Text.Split

namespace KotlinHarness.Source

open Text

/-! ## Pieces -/

/-- At least one white space character, and what follows all of them. -/
def spaces? (text : List Char) : Option (List Char) :=
  match text with
  | c :: rest => if isSpace c then some (trimStart rest) else none
  | [] => none

/-- A non-empty run of characters of class `p`, and what follows it. -/
def run? (p : Char → Bool) (text : List Char) : Option (List Char × List Char) :=
  let taken := text.takeWhile p
  if taken.isEmpty then none else some (taken, text.drop taken.length)

/-- Whether a word may start after `before`: at the start of the text or after a character that is
    no word character. -/
def wordMayStart (before : Option Char) : Bool :=
  match before with
  | some c => !isWord c
  | none => true

/-! ## Package clauses and imports -/

/-- A package clause at the start of a line, after any white space: the package. -/
def packageClause? (text : List Char) : Option (List Char) := do
  let rest ← "package".toList.isPrefixOf? (trimStart text)
  let rest ← spaces? rest
  let (name, _) ← run? isDotted rest
  pure name

/-- The first package clause of a text, looking at line starts. -/
def packageFrom (atLineStart : Bool) : List Char → Option (List Char)
  | [] => none
  | c :: rest =>
    (if atLineStart then packageClause? (c :: rest) else none) <|> packageFrom (c == '\n') rest

/-- The package that a text declares. -/
def package? (code : List Char) : Option String := (packageFrom true code).map String.ofList

/-- An import statement with the white space before it: the imported name and what follows. -/
def importStatement? (text : List Char) : Option (List Char × List Char) := do
  let rest ← "import".toList.isPrefixOf? (trimStart text)
  let rest ← spaces? rest
  let (name, rest) ← run? isDotted rest
  let rest ← [';'].isPrefixOf? (trimStart rest)
  pure (name, rest)

/-- Import statements with the number of characters before each match, which starts at a line
    start and may begin with white space and line feeds.  `inside` characters belong to the
    statement found last, `position` characters precede the text. -/
def importsFrom (position : Nat) (atLineStart : Bool) : Nat → List Char → List (Nat × String)
  | _, [] => []
  | inside + 1, c :: rest => importsFrom (position + 1) (c == '\n') inside rest
  | 0, c :: rest =>
    match if atLineStart then importStatement? (c :: rest) else none with
    | some (name, after) =>
      (position, String.ofList name)
        :: importsFrom (position + 1) (c == '\n') (rest.length - after.length) rest
    | none => importsFrom (position + 1) (c == '\n') 0 rest

/-- The imports of a text and where their statements start. -/
def imports (text : List Char) : List (Nat × String) := importsFrom 0 true 0 text

/-! ## Declarations -/

/-- The keyword of a declaration. -/
inductive Keyword where
  | classType
  | interface
  | enum
  | object
  | function
  | record
  /-- `@interface` -/
  | annotationType
  deriving DecidableEq

namespace Keyword

/-- The spelling of a keyword. -/
def text : Keyword → String
  | .classType => "class"
  | .interface => "interface"
  | .enum => "enum"
  | .object => "object"
  | .function => "fun"
  | .record => "record"
  | .annotationType => "@interface"

/-- The keywords that are words. -/
def words : List Keyword := [.classType, .interface, .enum, .object, .function, .record]

end Keyword

/-- Words that may precede the keyword of a declaration. -/
def modifierWords : List String :=
  ["public", "private", "protected", "internal", "abstract", "final", "open", "data", "sealed",
    "static", "inner", "value", "enum", "annotation"]

/-- An argument list without closing parenthesis inside, and what follows it. -/
def arguments? (text : List Char) : Option (List Char) :=
  match text with
  | '(' :: rest => [')'].isPrefixOf? (rest.dropWhile (· != ')'))
  | _ => none

/-- An applied annotation with the white space after it: what follows. -/
def annotationItem? (text : List Char) : Option (List Char) := do
  let rest ← ['@'].isPrefixOf? text
  let (_, rest) ← run? isDotted rest
  spaces? ((arguments? rest).getD rest)

/-- A modifier word with the white space after it: what follows. -/
def modifierItem? (text : List Char) : Option (List Char) :=
  modifierWords.findSome? fun word => (word.toList.isPrefixOf? text).bind spaces?

/-- The rests of a text after one or more items at its start, after all of them first.  An item
    takes at least one character, so the characters of `budget` bound their number. -/
def afterItems (item? : List Char → Option (List Char)) : List Char → List Char → List (List Char)
  | [], _ => []
  | _ :: budget, text =>
    match item? text with
    | some rest => afterItems item? budget rest ++ [rest]
    | none => []

/-- A keyword, white space and a name: the keyword, the name, and what follows.  `mayStart` says
    whether a word may start here. -/
def declarationHead? (mayStart : Bool) (text : List Char) :
    Option (Keyword × List Char × List Char) :=
  let candidates := if mayStart then Keyword.words ++ [.annotationType] else [.annotationType]
  candidates.findSome? fun keyword => do
    let rest ← keyword.text.toList.isPrefixOf? text
    let rest ← spaces? rest
    let (name, rest) ← run? isWord rest
    pure (keyword, name, rest)

/-- A declaration as it stands in the text. -/
structure Declaration where
  /-- The leading annotations with their arguments. -/
  annotationText : List Char
  modifierText : List Char
  keyword : Keyword
  name : List Char
  deriving DecidableEq

/-- The characters of `text` in front of its end `rest`. -/
def upTo (text rest : List Char) : List Char := text.take (text.length - rest.length)

/-- The rests of a text after items at its start, after all of them first and after none last, and
    whether a word may start there: it may after an item, which ends in white space. -/
def withItems (item? : List Char → Option (List Char)) (mayStart : Bool) (text : List Char) :
    List (List Char × Bool) :=
  (afterItems item? text text).map (·, true) ++ [(text, mayStart)]

/-- The declaration after `marks`, which starts with modifiers if a word may start there. -/
def declarationAfter? (text marks : List Char) (mayStart : Bool) :
    Option (Declaration × List Char) :=
  let starts := if mayStart then withItems modifierItem? true marks else [(marks, false)]
  starts.findSome? fun (mods, mayStart) =>
    (declarationHead? mayStart mods).map fun (keyword, name, rest) =>
      (⟨upTo text marks, upTo marks mods, keyword, name⟩, rest)

/-- The declaration that starts the text, given the character before it, and what follows. -/
def declaration? (before : Option Char) (text : List Char) : Option (Declaration × List Char) :=
  (withItems annotationItem? (wordMayStart before) text).findSome? fun (marks, mayStart) =>
    declarationAfter? text marks mayStart

/-- The declarations of a text from the left; `inside` characters belong to the one found last. -/
def declarationsFrom (before : Option Char) : Nat → List Char → List Declaration
  | _, [] => []
  | inside + 1, c :: rest => declarationsFrom (some c) inside rest
  | 0, c :: rest =>
    match declaration? before (c :: rest) with
    | some (found, after) =>
      found :: declarationsFrom (some c) (rest.length - after.length) rest
    | none => declarationsFrom (some c) 0 rest

/-- The declarations of a text, in order. -/
def declarations (code : List Char) : List Declaration := declarationsFrom none 0 code

/-- Names after an at sign, in order; an at sign without a name is passed over. -/
def namesAfterAt : List Char → List String
  | [] => []
  | c :: rest =>
    if c = '@' then
      let name := rest.takeWhile isDotted
      if name.isEmpty then namesAfterAt rest else String.ofList name :: namesAfterAt rest
    else namesAfterAt rest

end KotlinHarness.Source
