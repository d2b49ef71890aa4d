import Rulebook.Text.Scan

/-!
# Instants

Texts denote instants in two forms: a date with a time and an offset, or a date alone, which is its
midnight. Days are counted in the Gregorian calendar, extended to all years.
-/
namespace Rulebook

/-- Seconds since the start of 1970 and the nanoseconds after them. A leap second counts as the
second before it with more than a thousand million nanoseconds. -/
structure Instant where
  seconds : Int
  nanos : Nat
deriving DecidableEq

structure Date where
  year : Int
  month : Nat
  day : Nat
deriving DecidableEq

namespace Date

def isLeapYear (year : Int) : Bool :=
  year % 4 = 0 ∧ (year % 100 ≠ 0 ∨ year % 400 = 0)

def monthLengths (year : Int) : List Nat :=
  [31, if isLeapYear year then 29 else 28, 31, 30, 31, 30, 31, 31, 30, 31, 30, 31]

def Exists (date : Date) : Prop :=
  1 ≤ date.month ∧ 1 ≤ date.day ∧
    date.day ≤ ((monthLengths date.year)[date.month - 1]?).getD 0

instance (date : Date) : Decidable date.Exists :=
  inferInstanceAs (Decidable (_ ∧ _ ∧ _))

def daysBeforeYear (year : Int) : Int :=
  let past := year - 1
  365 * past + past / 4 - past / 100 + past / 400

def daysBeforeMonth (year : Int) (month : Nat) : Nat :=
  ((monthLengths year).take (month - 1)).foldl (fun days length => days + length) 0

/-- Days since the first day of 1970. -/
def dayNumber (date : Date) : Int :=
  daysBeforeYear date.year - daysBeforeYear 1970 + daysBeforeMonth date.year date.month +
    date.day - 1

end Date

namespace Instant

open Text

def compare (a b : Instant) : Ordering :=
  (Ord.compare a.seconds b.seconds).then (Ord.compare a.nanos b.nanos)

def ofDate (date : Date) : Instant := ⟨86400 * date.dayNumber, 0⟩

/-- Nanoseconds from the digits after the point; those past the ninth do not count. -/
def fraction (digits : List Char) : Nat :=
  let kept := digits.take 9
  Scan.value kept * Nat.pow 10 (9 - kept.length)

/-- Seconds east of UTC: `Z`, or hours and minutes after a sign. -/
def offset : Scan Int := do
  let sign ← Scan.one fun c => c = 'Z' || c = 'z' || c = '+' || c = '-' || c = '\u2212'
  if sign = 'Z' ∨ sign = 'z' then pure 0
  else
    let hours ← Scan.digits 2
    Scan.exactly ':'
    let minutes ← Scan.digits 2
    guard (hours ≤ 23 ∧ minutes ≤ 59)
    let seconds : Int := 3600 * hours + 60 * minutes
    pure (if sign = '+' then seconds else -seconds)

/-- A date, a time of day and an offset. Second 60 is accepted in every minute. -/
def timestamp : Scan Instant := do
  let year ← Scan.digits 4
  Scan.exactly '-'
  let month ← Scan.digits 2
  Scan.exactly '-'
  let day ← Scan.digits 2
  let _ ← Scan.one fun c => c = 'T' || c = 't' || c = ' '
  let hour ← Scan.digits 2
  Scan.exactly ':'
  let minute ← Scan.digits 2
  Scan.exactly ':'
  let second ← Scan.digits 2
  let nanos ←
    match ← Scan.peek with
    | some '.' => do
      Scan.exactly '.'
      match ← Scan.span Char.isDigit with
      | [] => failure
      | places => pure (fraction places)
    | _ => pure 0
  let east ← offset
  let date : Date := ⟨year, month, day⟩
  guard (date.Exists ∧ hour ≤ 23 ∧ minute ≤ 59 ∧ second ≤ 60)
  let clock : Int := 3600 * hour + 60 * minute + min second 59
  pure
    { seconds := 86400 * date.dayNumber + clock - east
      nanos := if second = 60 then nanos + 1000000000 else nanos }

/-- A year has at most four digits unless a sign stands before it. -/
def year : Scan Int := do
  match ← Scan.peek with
  | some '+' => do
    Scan.exactly '+'
    let n ← Scan.anyNumber
    pure n
  | some '-' => do
    Scan.exactly '-'
    let n ← Scan.anyNumber
    pure (-n)
  | _ => do
    let n ← Scan.number 4
    pure n

/-- Year, month and day, with blanks allowed before each of them. -/
def plainDate : Scan Instant := do
  Scan.skipBlanks
  let year ← year
  Scan.exactly '-'
  Scan.skipBlanks
  let month ← Scan.number 2
  Scan.exactly '-'
  Scan.skipBlanks
  let day ← Scan.number 2
  let date : Date := ⟨year, month, day⟩
  guard (date.Exists ∧ -262143 ≤ year ∧ year ≤ 262142)
  pure (ofDate date)

def parse? (text : String) : Option Instant :=
  (timestamp.all? text).or (plainDate.all? text)

end Instant
end Rulebook
