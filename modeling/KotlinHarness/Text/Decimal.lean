/-
  Numbers in text: ASCII decimal digits, read up to 32 bits and written with a fixed width.
-/

namespace KotlinHarness.Text

/-- The value of decimal digits. -/
def digitsValue (digits : List Char) : Nat :=
  digits.foldl (fun n c => n * 10 + (c.toNat - '0'.toNat)) 0

/-- Numbers are below this bound, two to the power of 32. -/
def numberBound : Nat := 4294967296

/-- The number that `digits` spell; none for no digits, other characters, and numbers beyond the
    bound. -/
def number? (digits : List Char) : Option Nat :=
  if !digits.isEmpty && digits.all Char.isDigit && digitsValue digits < numberBound then
    some (digitsValue digits)
  else none

/-- The last `count` digits of a number, zeros in front where it is shorter. -/
def lastDigits : Nat → Nat → List Char
  | 0, _ => []
  | count + 1, n => lastDigits count (n / 10) ++ [Nat.digitChar (n % 10)]

@[simp]
theorem length_lastDigits (count n : Nat) : (lastDigits count n).length = count := by
  induction count generalizing n with
  | zero => rfl
  | succ count ih => simp [lastDigits, ih]

end KotlinHarness.Text
