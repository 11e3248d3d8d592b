/-!
# Moments

Dates with a time of day, to the microsecond. They are written as `2026-01-31T12:00:00`, with six digits of a
second after a point where there are any, and read from the usual ISO forms: dates by month or by week, with
or without separators, and an optional time and offset.
-/

set_option autoImplicit false
namespace Deadwood

/-- A date with a time of day. -/
structure Moment where
  year : Nat
  month : Nat
  day : Nat
  hour : Nat := 0
  minute : Nat := 0
  second : Nat := 0
  microsecond : Nat := 0
  deriving Repr, DecidableEq, Inhabited

namespace Moment

/-! ## The calendar -/

def isLeapYear (year : Nat) : Bool :=
  year % 4 = 0 && (year % 100 ≠ 0 || year % 400 = 0)

def daysInMonth (year month : Nat) : Nat :=
  if month = 2 then (if isLeapYear year then 29 else 28)
  else if [4, 6, 9, 11].contains month then 30
  else 31

def daysBeforeYear (year : Nat) : Nat :=
  let past := year - 1
  past * 365 + past / 4 - past / 100 + past / 400

def daysBeforeMonth (year month : Nat) : Nat :=
  (List.range (month - 1)).foldl (fun days index => days + daysInMonth year (index + 1)) 0

def dayNumber (year month day : Nat) : Nat :=
  daysBeforeYear year + daysBeforeMonth year month + day

def microsecondsPerDay : Nat := 86400000000

def toMicroseconds (moment : Moment) : Nat :=
  (dayNumber moment.year moment.month moment.day - 1) * microsecondsPerDay
    + ((moment.hour * 60 + moment.minute) * 60 + moment.second) * 1000000 + moment.microsecond

def isValid (moment : Moment) : Bool :=
  1 ≤ moment.year && moment.year ≤ 9999 && 1 ≤ moment.month && moment.month ≤ 12 && 1 ≤ moment.day
    && moment.day ≤ daysInMonth moment.year moment.month && moment.hour < 24 && moment.minute < 60
    && moment.second < 60 && moment.microsecond < 1000000

/-! ## Writing -/

def padded (width value : Nat) : String :=
  let digits := (toString value).toList
  String.ofList (List.replicate (width - digits.length) '0' ++ digits)

def toSeconds (moment : Moment) : String :=
  padded 4 moment.year ++ "-" ++ padded 2 moment.month ++ "-" ++ padded 2 moment.day ++ "T"
    ++ padded 2 moment.hour ++ ":" ++ padded 2 moment.minute ++ ":" ++ padded 2 moment.second

def toString (moment : Moment) : String :=
  moment.toSeconds ++ if moment.microsecond = 0 then "" else "." ++ padded 6 moment.microsecond

def stamp (moment : Moment) : String :=
  padded 4 moment.year ++ padded 2 moment.month ++ padded 2 moment.day ++ "_" ++ padded 2 moment.hour
    ++ padded 2 moment.minute ++ padded 2 moment.second

/-! ## Reading -/

def number? (digits : List Char) : Option Nat :=
  if digits.isEmpty || !digits.all Char.isDigit then none
  else some (digits.foldl (fun value digit => value * 10 + (digit.toNat - 48)) 0)

def digits? (count : Nat) (text : List Char) : Option (Nat × List Char) :=
  if text.length < count then none else (number? (text.take count)).map (·, text.drop count)

def monthAndDay (year : Nat) (dayOfYear : Nat) : Nat → Nat × Nat
  | 0 => (1, dayOfYear)
  | month + 1 =>
    let before := daysBeforeMonth year (month + 1)
    if before < dayOfYear then (month + 1, dayOfYear - before) else monthAndDay year dayOfYear month

def ofDayNumber? (number : Nat) : Option (Nat × Nat × Nat) :=
  let guess := number / 365 + 1
  ((List.range 30).map (guess - ·)).find? (fun year => 1 ≤ year && daysBeforeYear year < number)
    |>.map fun year => (year, monthAndDay year (number - daysBeforeYear year) 12)

def ofWeek? (year week weekday : Nat) : Option (Nat × Nat × Nat) :=
  let firstWeekday := dayNumber year 1 1 % 7
  let hasWeek53 := firstWeekday = 4 || (firstWeekday = 3 && isLeapYear year)
  if year < 1 || 9999 < year || week < 1 || 53 < week || (week = 53 && !hasWeek53) || weekday < 1 || 7 < weekday
  then none
  else
    let fourth := dayNumber year 1 4
    let mondayOfWeekOne := fourth - (fourth + 6) % 7
    if year = 1 && mondayOfWeekOne = 0 then none
    else ofDayNumber? (mondayOfWeekOne + (week - 1) * 7 + (weekday - 1))

def dateLength (text : List Char) : Nat :=
  if text.length = 7 then 7
  else if text[4]? == some '-' then
    if text[5]? == some 'W' then
      if 9 < text.length && text[8]? == some '-' then
        if text[10]?.any Char.isDigit then 8 else 10
      else 8
    else 10
  else if text[4]? == some 'W' then
    let stop := 7 + ((text.drop 7).takeWhile Char.isDigit).length
    if stop < 9 then stop else if stop % 2 = 0 then 7 else 8
  else 8

def readDate? (text : List Char) : Option (Nat × Nat × Nat) := do
  let (year, rest) ← digits? 4 text
  let separated := rest.head? == some '-'
  let rest := if separated then rest.tail else rest
  if rest.head? == some 'W' then
    let (week, rest) ← digits? 2 rest.tail
    if rest.isEmpty then ofWeek? year week 1
    else
      if (rest.head? == some '-') ≠ separated then none
      let (weekday, rest) ← digits? 1 (if separated then rest.tail else rest)
      if !rest.isEmpty then none
      ofWeek? year week weekday
  else
    let (month, rest) ← digits? 2 rest
    if (rest.head? == some '-') ≠ separated then none
    let (day, rest) ← digits? 2 (if separated then rest.tail else rest)
    if !rest.isEmpty then none
    return (year, month, day)

def readFraction? (text : List Char) : Option Nat :=
  if text.isEmpty || !text.all Char.isDigit then none
  else
    let kept := text.take 6
    (number? kept).map (· * Nat.pow 10 (6 - kept.length))

def readTime? (text : List Char) : Option (Nat × Nat × Nat × Nat) := do
  let (hour, rest) ← digits? 2 text
  if rest.isEmpty then return (hour, 0, 0, 0)
  let separated := rest.head? == some ':'
  let (minute, rest) ← digits? 2 (if separated then rest.tail else rest)
  if rest.isEmpty then return (hour, minute, 0, 0)
  if separated && rest.head? ≠ some ':' then none
  let (second, rest) ← digits? 2 (if separated then rest.tail else rest)
  match rest with
  | [] => return (hour, minute, second, 0)
  | mark :: fraction =>
    if mark ≠ '.' && mark ≠ ',' then none
    return (hour, minute, second, ← readFraction? fraction)

def readTimeAndOffset? (text : List Char) : Option ((Nat × Nat × Nat × Nat) × Bool) := do
  let isMark (c : Char) := c == '-' || c == '+' || c == 'Z'
  let time ← readTime? (text.takeWhile (!isMark ·))
  match text.dropWhile (!isMark ·) with
  | [] => return (time, false)
  | ['Z'] => return (time, true)
  | _ :: offset =>
    let (hours, minutes, seconds, _) ← readTime? offset
    if 24 * 60 * 60 ≤ (hours * 60 + minutes) * 60 + seconds then none
    return (time, true)

/-- Reads a moment. The flag says that it names an offset from universal time, so that it cannot be compared
with one that does not. -/
def ofString? (text : String) : Option (Moment × Bool) := do
  let chars := text.toList
  if chars.length < 7 then none
  let length := dateLength chars
  let (year, month, day) ← readDate? (chars.take length)
  let ((hour, minute, second, microsecond), offset) ←
    if chars.length ≤ length then some ((0, 0, 0, 0), false)
    else if chars.length = length + 1 then none
    else readTimeAndOffset? (chars.drop (length + 1))
  let moment : Moment := ⟨year, month, day, hour, minute, second, microsecond⟩
  if moment.isValid then return (moment, offset) else none

end Moment
end Deadwood
