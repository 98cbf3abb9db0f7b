/-
  Moments: a date, a time of day, or both, and only with both an offset from universal time.

  Between date and time stands a `T` in either case or a single blank.  A time may leave its
  seconds out, and a fraction of a second may have any number of digits, of which nine count.  The
  calendar is checked: month lengths, leap years, and a second 60 at most, for leap seconds.

    * `Moment.read?`  the moment that a text spells
    * `Moment.text`   its one spelling: seconds always, the fraction without zeros at its end, `Z`
      or a sign for the offset
-/
import KotlinHarness.Text.Decimal
import KotlinHarness.Text.Split
import KotlinHarness.Toml.Reader

namespace KotlinHarness.Toml

open Reader

/-- A number of exactly `count` digits. -/
def number (count : Nat) : Reader Nat := fun text =>
  let digits := text.take count
  if digits.length = count && digits.all Char.isDigit then
    some (Text.digitsValue digits, text.drop count)
  else none

/-! ## Dates -/

/-- A day of the calendar. -/
structure Date where
  year : Nat
  month : Nat
  day : Nat
  deriving DecidableEq, Inhabited

namespace Date

/-- Whether a year has a 29th of February. -/
def isLeap (year : Nat) : Bool := year % 4 == 0 && (year % 100 != 0 || year % 400 == 0)

/-- How many days a month has; none for a number that is no month. -/
def monthLength (year month : Nat) : Nat :=
  match month with
  | 2 => if isLeap year then 29 else 28
  | 4 | 6 | 9 | 11 => 30
  | 1 | 3 | 5 | 7 | 8 | 10 | 12 => 31
  | _ => 0

/-- Whether the calendar has the month and the day. -/
def isOnCalendar (date : Date) : Bool :=
  1 ≤ date.day && date.day ≤ monthLength date.year date.month

/-- Year, month and day with a dash in between. -/
def reader : Reader Date := do
  let year ← number 4
  expect "-"
  let month ← number 2
  expect "-"
  let day ← number 2
  let date : Date := ⟨year, month, day⟩
  if date.isOnCalendar then pure date else refuse

/-- The spelling of a date. -/
def text (date : Date) : List Char :=
  Text.lastDigits 4 date.year ++ '-' :: Text.lastDigits 2 date.month
    ++ '-' :: Text.lastDigits 2 date.day

end Date

/-! ## Times of day -/

/-- A time of day. -/
structure Time where
  hour : Nat
  minute : Nat
  /-- Up to 60, for a leap second. -/
  second : Nat
  nanosecond : Nat
  deriving DecidableEq, Inhabited

namespace Time

/-- The nanoseconds that the digits after a decimal point stand for; digits beyond the ninth do not
    count. -/
def fraction : Reader Nat := do
  let digits ← takeAll Char.isDigit
  if digits.isEmpty then refuse
  else pure (Text.digitsValue ((digits ++ List.replicate 9 '0').take 9))

/-- Seconds with their fraction after a colon, if one comes next. -/
def seconds : Reader (Nat × Nat) := do
  if ← accept ":" then
    let second ← number 2
    if ← accept "." then return (second, ← fraction)
    return (second, 0)
  return (0, 0)

/-- Hour and minute, and seconds where they are written. -/
def reader : Reader Time := do
  let hour ← number 2
  expect ":"
  let minute ← number 2
  let (second, nanosecond) ← seconds
  if hour ≤ 23 && minute ≤ 59 && second ≤ 60 then pure ⟨hour, minute, second, nanosecond⟩
  else refuse

/-- The fraction of a second as it is written, without zeros at its end. -/
def fractionText (nanosecond : Nat) : List Char :=
  if nanosecond = 0 then []
  else '.' :: Text.dropEndWhile (· == '0') (Text.lastDigits 9 nanosecond)

/-- The spelling of a time of day. -/
def text (time : Time) : List Char :=
  Text.lastDigits 2 time.hour ++ ':' :: Text.lastDigits 2 time.minute
    ++ ':' :: Text.lastDigits 2 time.second ++ fractionText time.nanosecond

end Time

/-! ## Offsets -/

/-- How far a clock is from universal time. -/
inductive Offset where
  /-- Universal time itself. -/
  | universal
  /-- So many minutes ahead, or behind when negative. -/
  | minutes (count : Int)
  deriving DecidableEq, Inhabited

namespace Offset

/-- Hours and minutes of an offset, as minutes. -/
def distance : Reader Nat := do
  let hours ← number 2
  expect ":"
  let minutes ← number 2
  if hours ≤ 23 && minutes ≤ 59 then pure (hours * 60 + minutes) else refuse

/-- An offset, if one comes next. -/
def reader : Reader (Option Offset) := do
  if ← accept "Z" then return some .universal
  if ← accept "z" then return some .universal
  if ← accept "+" then return some (.minutes (← distance))
  if ← accept "-" then return some (.minutes (-(← distance)))
  return none

/-- The spelling of an offset. -/
def text : Offset → List Char
  | universal => ['Z']
  | minutes count =>
    (if count < 0 then '-' else '+') :: Text.lastDigits 2 (count.natAbs / 60)
      ++ ':' :: Text.lastDigits 2 (count.natAbs % 60)

end Offset

/-! ## Moments -/

/-- A date, a time of day, or both. -/
inductive Moment where
  | onDate (date : Date)
  | atTime (time : Time)
  | both (date : Date) (time : Time) (offset : Option Offset)
  deriving DecidableEq, Inhabited

namespace Moment

/-- Whether a mark between date and time comes next, which is then taken. -/
def timeMark : Reader Bool := do
  if ← accept "T" then pure true
  else if ← accept "t" then pure true
  else accept " "

/-- A moment at the start of a text. -/
def reader : Reader Moment :=
  (do
    let date ← Date.reader
    if ← timeMark then
      let time ← Time.reader
      return .both date time (← Offset.reader)
    return .onDate date) <|>
  (return .atTime (← Time.reader))

/-- The moment that a text spells. -/
def read? (text : List Char) : Option Moment := reader.whole? text

/-- The spelling of a moment. -/
def text : Moment → String
  | onDate date => String.ofList date.text
  | atTime time => String.ofList time.text
  | both date time offset =>
    String.ofList (date.text ++ 'T' :: time.text ++ (offset.map Offset.text).getD [])

end Moment

end KotlinHarness.Toml
