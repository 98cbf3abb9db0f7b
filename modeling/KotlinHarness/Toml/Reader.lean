/-
  Readers of TOML text.

  A reader takes the rest of the text and gives a value with what follows it, or refuses.
-/

namespace KotlinHarness.Toml

/-- A reader of `α` from the rest of the text. -/
abbrev Reader (α : Type) := StateT (List Char) Option α

namespace Reader

/-- Refuses. -/
def refuse {α : Type} : Reader α := fun _ => none

/-- The next character, left in place. -/
def peek : Reader (Option Char) := fun text => some (text.head?, text)

/-- The next character. -/
def next : Reader Char := fun text =>
  match text with
  | c :: rest => some (c, rest)
  | [] => none

/-- Whether the text goes on with `part`, which is then taken. -/
def accept (part : String) : Reader Bool := fun text =>
  match part.toList.isPrefixOf? text with
  | some rest => some (true, rest)
  | none => some (false, text)

/-- Takes `part` or refuses. -/
def expect (part : String) : Reader Unit := do
  if ← accept part then pure () else refuse

/-- The longest run of characters of class `p`. -/
def takeAll (p : Char → Bool) : Reader (List Char) := fun text =>
  some (text.takeWhile p, text.dropWhile p)

/-- Refuses unless the text is at its end. -/
def atEnd : Reader Bool := fun text => some (text.isEmpty, text)

end Reader

/-- What a reader makes of a whole text. -/
def Reader.whole? {α : Type} (reader : Reader α) (text : List Char) : Option α :=
  match reader text with
  | some (value, []) => some value
  | _ => none

end KotlinHarness.Toml
