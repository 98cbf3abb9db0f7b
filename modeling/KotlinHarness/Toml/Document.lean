/-
  Reading a TOML document: headers and key-value lines, one statement to a line.
-/
import KotlinHarness.Toml.Grammar

namespace KotlinHarness.Toml

open Reader

/-- A statement of a document. -/
inductive Statement where
  | blank
  | header (parents : List String) (key : String)
  | arrayHeader (parents : List String) (key : String)
  | assignment (parents : List String) (key : String) (value : Value)

/-- One statement, without the line end. -/
def statement (limit : Nat) : Reader Statement := do
  blanks
  let found ← (do
    if ← accept "[[" then
      blanks
      let (parents, key) ← dottedKey limit
      expect "]]"
      return .arrayHeader parents key
    if ← accept "[" then
      blanks
      let (parents, key) ← dottedKey limit
      expect "]"
      return .header parents key
    match ← peek with
    | none => return .blank
    | some c =>
      if c = '#' || c = '\n' || c = '\r' then return .blank
      let (parents, key) ← dottedKey limit
      expect "="
      blanks
      return .assignment parents key (← value limit))
  blanks
  comment
  return found

/-- What is known after some statements: the document, and the keys of the table that assignments go
    to. -/
structure State where
  root : Entries
  current : List String

/-- Carries out a statement. -/
def State.apply (state : State) : Statement → Option State
  | .blank => some state
  | .header parents key =>
    (state.root.under parents (Entries.openTable key)).map fun root => ⟨root, parents ++ [key]⟩
  | .arrayHeader parents key =>
    (state.root.under parents (Entries.openArrayTable key)).map fun root => ⟨root, parents ++ [key]⟩
  | .assignment parents key value =>
    (state.root.under state.current (Entries.assign .header parents key value true)).map
      fun root => { state with root := root }

/-- Reads and carries out statements to the end of the text. -/
def statements (limit : Nat) : Nat → State → Reader State
  | 0, _ => refuse
  | lines + 1, state => do
    let found ← statement limit
    match state.apply found with
    | none => refuse
    | some state =>
      if ← lineEnd? then statements limit lines state
      else if ← atEnd then pure state
      else refuse

/-- The entries of a document; none when the text is no TOML. -/
def document? (text : String) : Option Entries :=
  let chars :=
    match text.toList with
    | c :: rest => if c.toNat = 0xFEFF then rest else c :: rest
    | [] => []
  let limit := chars.length + 1
  ((statements limit limit ⟨[], []⟩).run chars).map fun read => read.1.root

end KotlinHarness.Toml
