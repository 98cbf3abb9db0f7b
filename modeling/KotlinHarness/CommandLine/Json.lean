/-
  JSON for reports: values, and their text with two blanks for each level.
-/

namespace KotlinHarness

/-- A JSON value; the members of an object keep their order. -/
inductive Json where
  | null
  | boolean (value : Bool)
  | text (value : String)
  | array (items : List Json)
  | object (members : List (String × Json))
  deriving Inhabited

namespace Json

/-- A text or nothing. -/
def ofText? (value : Option String) : Json := (value.map text).getD null

/-- An array of texts. -/
def ofTexts (values : List String) : Json := array (values.map text)

/-- A number below 16 as a lower case digit. -/
def hexDigit (n : Nat) : Char := (Nat.toDigits 16 n).headD '0'

/-- A character within quotes: quotes, backslashes and control characters are escaped. -/
def escape (c : Char) : List Char :=
  if c = '"' then ['\\', '"']
  else if c = '\\' then ['\\', '\\']
  else if c = '\n' then ['\\', 'n']
  else if c = '\r' then ['\\', 'r']
  else if c = '\t' then ['\\', 't']
  else if c.toNat = 8 then ['\\', 'b']
  else if c.toNat = 12 then ['\\', 'f']
  else if c.toNat < 32 then
    ['\\', 'u', '0', '0', hexDigit (c.toNat / 16), hexDigit (c.toNat % 16)]
  else [c]

/-- A text in quotes. -/
def quote (value : String) : String :=
  "\"" ++ String.ofList (value.toList.flatMap escape) ++ "\""

/-- A line break and the blanks of a level. -/
def newline (level : Nat) : String := "\n" ++ String.ofList (List.replicate (2 * level) ' ')

mutual

/-- The text of a value that stands at a level. -/
def renderAt (level : Nat) : Json → String
  | null => "null"
  | boolean value => if value then "true" else "false"
  | text value => quote value
  | array [] => "[]"
  | array (first :: rest) =>
    "[" ++ newline (level + 1) ++ renderAt (level + 1) first ++ renderItems (level + 1) rest
      ++ newline level ++ "]"
  | object [] => "\x7b\x7d"
  | object ((key, value) :: rest) =>
    "\x7b" ++ newline (level + 1) ++ quote key ++ ": " ++ renderAt (level + 1) value
      ++ renderMembers (level + 1) rest ++ newline level ++ "\x7d"

/-- The items after the first. -/
def renderItems (level : Nat) : List Json → String
  | [] => ""
  | item :: rest => "," ++ newline level ++ renderAt level item ++ renderItems level rest

/-- The members after the first. -/
def renderMembers (level : Nat) : List (String × Json) → String
  | [] => ""
  | (key, value) :: rest =>
    "," ++ newline level ++ quote key ++ ": " ++ renderAt level value ++ renderMembers level rest

end

/-- The text of a value. -/
def render (value : Json) : String := value.renderAt 0

end Json

end KotlinHarness
