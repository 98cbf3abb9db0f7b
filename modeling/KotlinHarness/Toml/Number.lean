/-
  Numbers: which texts are integers and floats.

  A manifest has no key that takes a number, so only the form matters and no value is made.  The
  form asks less than a value needs: the mark of a base may stand without digits, and in a decimal
  integer the pieces after an underscore may go on from a hexadecimal digit.

    * `isNumber`  a number with an optional sign
-/
import KotlinHarness.Text.Split

namespace KotlinHarness.Toml

/-- The value of a hexadecimal digit. -/
def hexValue? (c : Char) : Option Nat :=
  if c.isDigit then some (c.toNat - '0'.toNat)
  else if 'a' ≤ c && c ≤ 'f' then some (c.toNat - 'a'.toNat + 10)
  else if 'A' ≤ c && c ≤ 'F' then some (c.toNat - 'A'.toNat + 10)
  else none

def isHexDigit (c : Char) : Bool := (hexValue? c).isSome

def isOctalDigit (c : Char) : Bool := '0' ≤ c && c ≤ '7'

def isBinaryDigit (c : Char) : Bool := c == '0' || c == '1'

/-! ## Underscores -/

/-- Whether an underscore may follow `piece`: it ends in a digit, or it is a single character, as a
    sign is. -/
def mayPrecedeUnderscore (isDigit : Char → Bool) (piece : List Char) : Bool :=
  piece.length == 1 || piece.getLast?.any isDigit

/-- Whether an underscore may precede `piece`. -/
def mayFollowUnderscore (isDigit : Char → Bool) (piece : List Char) : Bool :=
  piece.head?.any isDigit

/-- Whether every underscore of a text stands alone and next to digits. -/
def hasDigitGroups (isDigit : Char → Bool) (text : List Char) : Bool :=
  match Text.splitOn '_' text with
  | [] => true
  | first :: rest =>
    rest.isEmpty ||
      !first.isEmpty && (first :: rest.dropLast).all (mayPrecedeUnderscore isDigit)
        && rest.all (mayFollowUnderscore isDigit)

/-- Digits of class `isDigit` with single underscores between them, or nothing. -/
def isBasedDigits (isDigit : Char → Bool) (digits : List Char) : Bool :=
  digits.isEmpty || (Text.splitOn '_' digits).all fun piece =>
    !piece.isEmpty && piece.all isDigit

/-! ## Floats -/

/-- `text` without a sign at its start. -/
def withoutSign (text : List Char) : List Char :=
  match text with
  | '+' :: rest => rest
  | '-' :: rest => rest
  | _ => text

/-- A character of a run of digits. -/
def isRunCharacter (c : Char) : Bool := c.isDigit || c == '_'

/-- What follows digits and underscores, of which there must be a digit. -/
def afterDigits? (text : List Char) : Option (List Char) :=
  if (text.takeWhile isRunCharacter).any Char.isDigit then some (text.dropWhile isRunCharacter)
  else none

/-- What follows a fraction, if the text starts with one. -/
def afterFraction? (text : List Char) : Option (List Char) :=
  match text with
  | '.' :: rest => afterDigits? rest
  | _ => some text

/-- What follows an exponent, if the text starts with one. -/
def afterExponent? (text : List Char) : Option (List Char) :=
  match text with
  | 'e' :: rest => afterDigits? (withoutSign rest)
  | 'E' :: rest => afterDigits? (withoutSign rest)
  | _ => some text

/-- Whether the digits before the point of a float have a zero too many. -/
def hasIdleZero (text : List Char) : Bool :=
  text.head? == some '0' && 1 < ((text.takeWhile isRunCharacter).filter Char.isDigit).length

/-- A float without sign, apart from where its underscores stand. -/
def isPlainFloat (text : List Char) : Bool :=
  !hasIdleZero text &&
    (((afterDigits? text).bind afterFraction?).bind afterExponent?).any List.isEmpty

/-! ## Numbers -/

/-- Whether `text` is a decimal number, `body` being the text without its sign. -/
def isDecimalNumber (text body : List Char) : Bool :=
  match body.dropWhile Char.isDigit with
  | [] => !body.isEmpty && (body.length == 1 || body.head? != some '0')
  | c :: rest =>
    if (c :: rest).any fun c => c == '.' || c == 'e' || c == 'E' then
      isPlainFloat body && hasDigitGroups Char.isDigit text
    else c == '_' && body.head? != some '0' && hasDigitGroups isHexDigit text

/-- Whether `text` is an integer or a float. -/
def isNumber (text : List Char) : Bool :=
  match text with
  | '0' :: 'x' :: digits => isBasedDigits isHexDigit digits
  | '0' :: 'o' :: digits => isBasedDigits isOctalDigit digits
  | '0' :: 'b' :: digits => isBasedDigits isBinaryDigit digits
  | _ =>
    let body := withoutSign text
    body == "inf".toList || body == "nan".toList || isDecimalNumber text body

end KotlinHarness.Toml
