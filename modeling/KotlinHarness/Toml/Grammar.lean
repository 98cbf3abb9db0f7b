/-
  The grammar of TOML below the level of statements: keys, strings, values.

  Loops are bounded by a limit that the entry points derive from the length of the text, as each
  step takes at least one character.  Two bounds belong to the grammar itself: how deep arrays and
  inline tables nest, and how many parts a key has.
-/
import KotlinHarness.Toml.Moment
import KotlinHarness.Toml.Number
import KotlinHarness.Toml.Value

namespace KotlinHarness.Toml

open Reader

/-! ## Blanks, line ends and comments -/

def isBlank (c : Char) : Bool := c == ' ' || c == '\t'

def blanks : Reader Unit := do let _ ← takeAll isBlank

/-- Control characters other than the tab, which may stand nowhere. -/
def isForbidden (c : Char) : Bool := (c.toNat < 0x20 && c != '\t') || c.toNat == 0x7F

/-- A line end, if one comes next. -/
def lineEnd? : Reader Bool := do
  if ← accept "\r\n" then pure true else accept "\n"

/-- A comment, if one comes next, up to its line end. -/
def comment : Reader Unit := do
  if ← accept "#" then
    let _ ← takeAll (!isForbidden ·)

/-- Blanks, comments and line ends, at most `limit` of the latter. -/
def gaps : Nat → Reader Unit
  | 0 => refuse
  | limit + 1 => do
    blanks
    comment
    if ← lineEnd? then gaps limit

/-! ## Strings -/

/-- A character written with `count` hexadecimal digits. -/
def hexCharacter (count : Nat) : Reader Char := do
  let rec digits : Nat → Nat → Reader Nat
    | 0, value => pure value
    | count + 1, value => do
      match hexValue? (← next) with
      | some digit => digits count (value * 16 + digit)
      | none => refuse
  let value ← digits count 0
  if value.isValidChar then pure (Char.ofNat value) else refuse

/-- The character an escape stands for, after its backslash. -/
def escape : Reader Char := do
  match ← next with
  | 'b' => pure (Char.ofNat 8)
  | 't' => pure '\t'
  | 'n' => pure '\n'
  | 'f' => pure (Char.ofNat 12)
  | 'r' => pure '\r'
  | 'e' => pure (Char.ofNat 27)
  | '"' => pure '"'
  | '\\' => pure '\\'
  | 'x' => hexCharacter 2
  | 'u' => hexCharacter 4
  | 'U' => hexCharacter 8
  | _ => refuse

/-- The rest of a one-line string after its opening quote; escapes are read only where they count.
    -/
def lineString (quote : Char) (escapes : Bool) : Nat → Reader (List Char)
  | 0 => refuse
  | limit + 1 => do
    let c ← next
    if c = quote then pure []
    else if escapes && c = '\\' then
      let c ← escape
      return c :: (← lineString quote escapes limit)
    else if isForbidden c then refuse
    else return c :: (← lineString quote escapes limit)

/-- The text after blanks and line ends. -/
def afterGaps : List Char → List Char
  | ' ' :: rest => afterGaps rest
  | '\t' :: rest => afterGaps rest
  | '\n' :: rest => afterGaps rest
  | '\r' :: '\n' :: rest => afterGaps rest
  | text => text

/-- Whether a backslash is followed by blanks and a line end; then all blanks and line ends after
    it are taken. -/
def continuation? : Reader Bool := fun text =>
  match text.dropWhile isBlank with
  | '\n' :: rest => some (true, afterGaps rest)
  | '\r' :: '\n' :: rest => some (true, afterGaps rest)
  | _ => some (false, text)

/-- The rest of a multi-line string after its opening quotes.  Up to two quotes may stand directly
    before the closing three. -/
def blockString (quote : Char) (escapes : Bool) : Nat → Reader (List Char)
  | 0 => refuse
  | limit + 1 => do
    let three := String.ofList [quote, quote, quote]
    if ← accept three then
      let more ← takeAll (· == quote)
      if more.length ≤ 2 then pure more else refuse
    else
      let c ← next
      if escapes && c = '\\' then
        if ← continuation? then blockString quote escapes limit
        else
          let c ← escape
          return c :: (← blockString quote escapes limit)
      else if c = '\n' then return c :: (← blockString quote escapes limit)
      else if c = '\r' then
        expect "\n"
        return '\r' :: '\n' :: (← blockString quote escapes limit)
      else if isForbidden c then refuse
      else return c :: (← blockString quote escapes limit)

/-- A string of the given quote character. -/
def stringOf (quote : Char) (escapes multiline : Bool) (limit : Nat) : Reader String := do
  let three := String.ofList [quote, quote, quote]
  if multiline && (← accept three) then
    let _ ← lineEnd?
    return String.ofList (← blockString quote escapes limit)
  else
    expect (String.singleton quote)
    return String.ofList (← lineString quote escapes limit)

/-! ## Keys -/

def isBareKey (c : Char) : Bool := c.isAlphanum || c == '_' || c == '-'

/-- One part of a key. -/
def simpleKey (limit : Nat) : Reader String := do
  match ← peek with
  | some '"' => stringOf '"' true false limit
  | some '\'' => stringOf '\'' false false limit
  | _ =>
    let bare ← takeAll isBareKey
    if bare.isEmpty then refuse else pure (String.ofList bare)

/-- The most parts of a key. -/
def maxKeyParts : Nat := 80

/-- At most `count` parts of a key with dots in between: those before the last, and the last. -/
def keyParts (limit : Nat) : Nat → Reader (List String × String)
  | 0 => refuse
  | count + 1 => do
    let key ← simpleKey limit
    blanks
    if ← accept "." then
      blanks
      let (parents, last) ← keyParts limit count
      pure (key :: parents, last)
    else pure ([], key)

/-- A key with dots between its parts: the parts before the last, and the last. -/
def dottedKey (limit : Nat) : Reader (List String × String) := keyParts limit maxKeyParts

/-! ## Numbers and moments -/

/-- The characters that end a number or a moment. -/
def scalarEnds : List Char := "=,[]\x7b\x7d \t#\r\n".toList

/-- A character of a number or moment, as far as it reaches. -/
def isScalarCharacter (c : Char) : Bool := !scalarEnds.contains c

/-- A number or a moment; a single blank may part a date from a time. -/
def scalar : Reader Value := do
  let first ← takeAll isScalarCharacter
  let text ← (fun rest =>
    match rest with
    | ' ' :: d :: _ =>
      if (Date.reader.whole? first).isSome && d.isDigit then
        let time := rest.tail.takeWhile isScalarCharacter
        some (first ++ ' ' :: time, rest.tail.drop time.length)
      else some (first, rest)
    | _ => some (first, rest) : Reader (List Char))
  match Moment.read? text with
  | some moment => pure (.moment moment)
  | none => if isNumber text then pure (.number (String.ofList text)) else refuse

/-! ## Values -/

/-- How deep arrays and inline tables nest. -/
def maxNesting : Nat := 80

mutual

/-- A value with at most `levels` arrays and inline tables around each other. -/
def nestedValue (levels : Nat) : Nat → Reader Value
  | 0 => refuse
  | limit + 1 => do
    match ← peek with
    | some '"' => return .string (← stringOf '"' true true limit)
    | some '\'' => return .string (← stringOf '\'' false true limit)
    | some '[' =>
      expect "["
      if levels = 0 then refuse
      return .array (← items (levels - 1) limit) false
    | some '{' =>
      expect "\x7b"
      if levels = 0 then refuse
      gaps limit
      if ← accept "\x7d" then return .table .inline []
      return .table .inline (← members (levels - 1) limit [])
    | some 't' => expect "true"; return .boolean true
    | some 'f' => expect "false"; return .boolean false
    | _ => scalar

/-- The items of an array and its closing bracket. -/
def items (levels : Nat) : Nat → Reader (List Value)
  | 0 => refuse
  | limit + 1 => do
    gaps limit
    if ← accept "]" then return []
    let item ← nestedValue levels limit
    gaps limit
    if ← accept "," then return item :: (← items levels limit)
    expect "]"
    return [item]

/-- The members of an inline table that has some, added to those read before, and its closing
    brace. -/
def members (levels : Nat) : Nat → Entries → Reader Entries
  | 0, _ => refuse
  | limit + 1, entries => do
    let (parents, key) ← dottedKey limit
    gaps limit
    expect "="
    gaps limit
    let member ← nestedValue levels limit
    match entries.assign .inline parents key member true with
    | none => refuse
    | some entries =>
      gaps limit
      if ← accept "," then
        gaps limit
        if ← accept "\x7d" then return entries
        members levels limit entries
      else
        expect "\x7d"
        return entries

end

/-- A value. -/
def value (limit : Nat) : Reader Value := nestedValue maxNesting limit

end KotlinHarness.Toml
