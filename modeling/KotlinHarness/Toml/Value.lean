/-
  TOML values and the rules by which statements build a document.

  A table remembers how it came to be: implied by a longer header, by a dotted key, by its own
  header, or written inline.  This decides what may still be added to it:

    * a header may open an implied table once, and nothing that exists in another way;
    * a dotted key may pass through and extend tables made by dotted keys, and nothing else;
    * an inline table and a plain array are closed.
-/
import KotlinHarness.Toml.Moment

namespace KotlinHarness.Toml

/-- How a table came to be. -/
inductive Origin where
  /-- Implied by the header of a table below it. -/
  | implied
  /-- Made by a dotted key. -/
  | dotted
  /-- Opened by a header, or the document itself. -/
  | header
  /-- Written between braces. -/
  | inline
  deriving DecidableEq

/-- A TOML value.  Numbers are kept as written. -/
inductive Value where
  | string (text : String)
  | boolean (value : Bool)
  | number (text : String)
  /-- A date, a time or both. -/
  | moment (moment : Moment)
  /-- `ofTables` marks an array that headers with double brackets build. -/
  | array (items : List Value) (ofTables : Bool)
  | table (origin : Origin) (entries : List (String × Value))

/-- Keys with their values, in the order written. -/
abbrev Entries := List (String × Value)

namespace Entries

def get? (entries : Entries) (key : String) : Option Value :=
  (entries.find? (·.1 == key)).map (·.2)

/-- The entry `key` replaced where it stands, or added at the end. -/
def put (entries : Entries) (key : String) (value : Value) : Entries :=
  match entries with
  | [] => [(key, value)]
  | entry :: rest => if entry.1 = key then (key, value) :: rest else entry :: put rest key value

/-- Changes the table that a header's parent keys lead to; missing tables become implied ones, and
    an array of tables stands for its last table. -/
def under (keys : List String) (change : Entries → Option Entries) (entries : Entries) :
    Option Entries :=
  match keys with
  | [] => change entries
  | key :: rest =>
    match get? entries key with
    | none => (under rest change []).map fun inner => put entries key (.table .implied inner)
    | some (.table .inline _) => none
    | some (.table origin inner) =>
      (under rest change inner).map fun inner => put entries key (.table origin inner)
    | some (.array items true) =>
      match items.getLast? with
      | some (.table origin inner) =>
        (under rest change inner).map fun inner =>
          put entries key (.array (items.dropLast ++ [.table origin inner]) true)
      | _ => none
    | some _ => none

/-- Adds the value of a dotted key to a table of the given origin; the last table on the way must
    be the one the statement stands in or one made by dotted keys. -/
def assign (origin : Origin) (parents : List String) (key : String) (value : Value)
    (isStart : Bool) (entries : Entries) : Option Entries :=
  match parents with
  | [] =>
    if isStart || origin = .dotted then
      match get? entries key with
      | none => some (put entries key value)
      | some _ => none
    else none
  | parent :: rest =>
    match get? entries parent with
    | none =>
      (assign .dotted rest key value false []).map fun inner =>
        put entries parent (.table .dotted inner)
    | some (.table .implied inner) =>
      (assign .implied rest key value false inner).map fun inner =>
        put entries parent (.table .implied inner)
    | some (.table .dotted inner) =>
      (assign .dotted rest key value false inner).map fun inner =>
        put entries parent (.table .dotted inner)
    | some (.array items true) =>
      match items.getLast? with
      | some (.table origin inner) =>
        (assign origin rest key value false inner).map fun inner =>
          put entries parent (.array (items.dropLast ++ [.table origin inner]) true)
      | _ => none
    | some _ => none

/-- Opens the table of a header with a single pair of brackets. -/
def openTable (key : String) (entries : Entries) : Option Entries :=
  match get? entries key with
  | none => some (put entries key (.table .header []))
  | some (.table .implied inner) => some (put entries key (.table .header inner))
  | some _ => none

/-- Opens a further table of a header with double brackets. -/
def openArrayTable (key : String) (entries : Entries) : Option Entries :=
  match get? entries key with
  | none => some (put entries key (.array [.table .header []] true))
  | some (.array items true) => some (put entries key (.array (items ++ [.table .header []]) true))
  | some _ => none

end Entries

end KotlinHarness.Toml
