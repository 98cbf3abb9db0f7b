/-
  Cutting text into pieces: lines, words, pieces between separators.

  All functions work on `List Char` and recurse on it.  `lines` ends a line at each line feed, drops
  one carriage return in front of it and yields nothing for the empty rest after the last line feed;
  `trim` and `words` use the white space of `Text.Class`.
-/
import KotlinHarness.Text.Class

namespace KotlinHarness.Text

/-- Pieces of `text` between the characters of class `p`; never empty. -/
def splitWhere (p : Char → Bool) : List Char → List (List Char)
  | [] => [[]]
  | c :: rest =>
    if p c then [] :: splitWhere p rest
    else
      match splitWhere p rest with
      | [] => [[c]]
      | piece :: pieces => (c :: piece) :: pieces

/-- Pieces of `text` between occurrences of `separator`. -/
def splitOn (separator : Char) (text : List Char) : List (List Char) :=
  splitWhere (· == separator) text

/-- `pieces` with `separator` between neighbours. -/
def joinWith (separator : List Char) : List (List Char) → List Char
  | [] => []
  | [piece] => piece
  | piece :: pieces => piece ++ separator ++ joinWith separator pieces

/-- `text` without one carriage return at its end. -/
def dropReturn (line : List Char) : List Char :=
  if line.getLast? = some '\r' then line.dropLast else line

/-- Lines of `pieces`, the parts between line feeds: each part but the last ended in a line feed,
    and an empty last part is no line. -/
def linesOfPieces : List (List Char) → List (List Char)
  | [] => []
  | [last] => if last.isEmpty then [] else [last]
  | piece :: pieces => dropReturn piece :: linesOfPieces pieces

/-- The lines of `text`. -/
def lines (text : List Char) : List (List Char) := linesOfPieces (splitOn '\n' text)

/-- `text` without white space at its start. -/
def trimStart (text : List Char) : List Char := text.dropWhile isSpace

/-- `text` without characters of class `p` at its end. -/
def dropEndWhile (p : Char → Bool) (text : List Char) : List Char :=
  (text.reverse.dropWhile p).reverse

/-- `text` without white space at both ends. -/
def trim (text : List Char) : List Char := dropEndWhile isSpace (trimStart text)

/-- The first maximal run of characters that are not white space. -/
def firstWord (text : List Char) : List Char := (trimStart text).takeWhile (!isSpace ·)

/-- The words of `text`: maximal runs of characters that are not white space. -/
def words (text : List Char) : List (List Char) := (splitWhere isSpace text).filter (!·.isEmpty)

/-- Whether `part` occurs in `text` as consecutive characters. -/
def occursIn (part : List Char) : List Char → Bool
  | [] => part.isEmpty
  | c :: rest => part.isPrefixOf (c :: rest) || occursIn part rest

/-- What precedes the first occurrence of `part` in `text`. -/
def before? (part : List Char) : List Char → Option (List Char)
  | [] => if part.isEmpty then some [] else none
  | c :: rest =>
    if part.isPrefixOf (c :: rest) then some [] else (before? part rest).map (c :: ·)

/-- The part of `text` after the last `separator`, or all of it. -/
def afterLast (separator : Char) (text : List Char) : List Char :=
  (text.reverse.takeWhile (· != separator)).reverse

/-- `text` with every occurrence of `part` replaced, scanning from the left; an empty `part` occurs
    nowhere.  `skip` counts the characters of the last occurrence still to pass over. -/
def replaceFrom (part replacement : List Char) : Nat → List Char → List Char
  | _, [] => []
  | skip + 1, _ :: rest => replaceFrom part replacement skip rest
  | 0, c :: rest =>
    if !part.isEmpty && part.isPrefixOf (c :: rest) then
      replacement ++ replaceFrom part replacement (part.length - 1) rest
    else c :: replaceFrom part replacement 0 rest

/-- `text` with every occurrence of `part` replaced by `replacement`. -/
def replaceAll (part replacement : String) (text : String) : String :=
  String.ofList (replaceFrom part.toList replacement.toList 0 text.toList)

/-! ## Small laws -/

theorem splitWhere_ne_nil (p : Char → Bool) (text : List Char) : splitWhere p text ≠ [] := by
  cases text with
  | nil => simp [splitWhere]
  | cons c rest =>
    simp only [splitWhere]
    split
    · simp
    · split <;> simp

/-- Joining the pieces of a text gives the text back. -/
theorem joinWith_splitOn (separator : Char) (text : List Char) :
    joinWith [separator] (splitOn separator text) = text := by
  unfold splitOn
  induction text with
  | nil => rfl
  | cons c rest ih =>
    have hne := splitWhere_ne_nil (· == separator) rest
    simp only [splitWhere]
    split
    · next h =>
      have h : c = separator := by simpa using h
      subst h
      match hs : splitWhere (· == c) rest with
      | [] => exact absurd hs hne
      | piece :: pieces => rw [hs] at ih; simp [joinWith, ih]
    · match hs : splitWhere (· == separator) rest with
      | [] => exact absurd hs hne
      | [piece] => rw [hs] at ih; simpa [joinWith] using ih
      | piece :: next :: pieces => rw [hs] at ih; simpa [joinWith] using ih

end KotlinHarness.Text
