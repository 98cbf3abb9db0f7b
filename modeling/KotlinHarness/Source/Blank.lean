/-
  Source text with its comments and literals blanked out.

  `region?` recognizes, at one position, a line comment, a block comment, a raw string between
  triple quotes, a string or a character literal; what is never closed is no region.  `codeOnly`
  scans from the left and writes a blank for every character of a region but line feeds, so that
  columns and line starts survive.
-/
import KotlinHarness.Text.Split

namespace KotlinHarness.Source

/-- Characters up to and including the first occurrence of `closing`. -/
def lengthThrough? (closing text : List Char) : Option Nat :=
  (Text.before? closing text).map fun before => before.length + closing.length

/-- Characters of a literal after its opening quote, the closing quote included.  A backslash
    takes the next character with it, whatever it is; a bare line feed ends the attempt. -/
def literalLength? (quote : Char) : List Char → Option Nat
  | [] => none
  | '\\' :: _ :: rest => (literalLength? quote rest).map (· + 2)
  | ['\\'] => none
  | c :: rest =>
    if c = quote then some 1
    else if c = '\n' then none
    else (literalLength? quote rest).map (· + 1)

/-- The length of the comment or literal that starts the text. -/
def region? : List Char → Option Nat
  | '/' :: '/' :: rest => some (2 + (rest.takeWhile (· != '\n')).length)
  | '/' :: '*' :: rest => (lengthThrough? ['*', '/'] rest).map (2 + ·)
  | '"' :: rest =>
    let raw := (['"', '"'].isPrefixOf? rest).bind (lengthThrough? ['"', '"', '"'])
    match raw with
    | some n => some (3 + n)
    | none => (literalLength? '"' rest).map (1 + ·)
  | '\'' :: rest => (literalLength? '\'' rest).map (1 + ·)
  | _ => none

/-- What stands for a character of a comment or literal. -/
def blankOf (c : Char) : Char := if c = '\n' then '\n' else ' '

/-- Scans `text`, the first `inside` characters of which belong to the region found last. -/
def codeFrom : Nat → List Char → List Char
  | _, [] => []
  | inside + 1, c :: rest => blankOf c :: codeFrom inside rest
  | 0, c :: rest =>
    match region? (c :: rest) with
    | some n => blankOf c :: codeFrom (n - 1) rest
    | none => c :: codeFrom 0 rest

/-- `text` with comments and literals replaced by blanks. -/
def codeOnly (text : List Char) : List Char := codeFrom 0 text

/-- Blanking keeps the number of characters. -/
theorem length_codeFrom (inside : Nat) (text : List Char) :
    (codeFrom inside text).length = text.length := by
  induction text generalizing inside with
  | nil => cases inside <;> rfl
  | cons c rest ih =>
    cases inside with
    | zero =>
      simp only [codeFrom]
      split <;> simp [ih]
    | succ inside => simp [codeFrom, ih]

theorem length_codeOnly (text : List Char) : (codeOnly text).length = text.length :=
  length_codeFrom 0 text

end KotlinHarness.Source
