/-
  Erl.Toml.Moment

  Dates and times of day.

  A date is a year of four digits, a month and a day that the month has in this year.  A time
  of day has hours, minutes and seconds, with room for a leap second, and perhaps a fraction.
  After a date, a time may follow behind a `T` or one space, and behind this time how far it
  is from universal time.

  The readers only say where a moment ends, because no record holds one.
-/

namespace Erl.Toml

/-- A number of as many digits as `width`, within bounds. -/
def ranged? (width least greatest : Nat) (cs : List Char) : Option (Nat × List Char) :=
  let digits := cs.take width
  let n := digits.foldl (fun n c => 10 * n + (c.toNat - '0'.toNat)) 0
  if digits.length = width ∧ digits.all Char.isDigit ∧ least ≤ n ∧ n ≤ greatest then
    some (n, cs.drop width)
  else none

/-- The text after a mark. -/
def afterMark? (mark : Char) : List Char → Option (List Char)
  | c :: cs => if c == mark then some cs else none
  | [] => none

/-- Whether a year has a 29th of February. -/
def isLeapYear (year : Nat) : Bool :=
  year % 4 == 0 && (year % 100 != 0 || year % 400 == 0)

/-- The number of days of a month. -/
def daysInMonth (year month : Nat) : Nat :=
  if month = 2 then (if isLeapYear year then 29 else 28)
  else if month = 4 ∨ month = 6 ∨ month = 9 ∨ month = 11 then 30
  else 31

/-- The text after a date. -/
def afterDate? (cs : List Char) : Option (List Char) := do
  let (year, cs) ← ranged? 4 0 9999 cs
  let (month, cs) ← ranged? 2 1 12 (← afterMark? '-' cs)
  let (_, cs) ← ranged? 2 1 (daysInMonth year month) (← afterMark? '-' cs)
  return cs

/-- Drops a fraction of a second, if there is one. -/
def dropFraction (cs : List Char) : List Char :=
  match cs with
  | '.' :: rest =>
    if (rest.takeWhile Char.isDigit).isEmpty then cs else rest.dropWhile Char.isDigit
  | _ => cs

/-- The text after hours and minutes. -/
def afterHours? (cs : List Char) : Option (List Char) := do
  let (_, cs) ← ranged? 2 0 23 cs
  let (_, cs) ← ranged? 2 0 59 (← afterMark? ':' cs)
  return cs

/-- The text after a time of day. -/
def afterTime? (cs : List Char) : Option (List Char) := do
  let (_, cs) ← ranged? 2 0 60 (← afterMark? ':' (← afterHours? cs))
  return dropFraction cs

/-- Drops how far a time is from universal time, if that is said. -/
def dropShift (cs : List Char) : List Char :=
  match cs with
  | c :: rest =>
    if c == 'Z' || c == 'z' then rest
    else if c == '+' || c == '-' then (afterHours? rest).getD cs
    else cs
  | [] => []

/-- Drops the time that belongs to a date, if there is one. -/
def dropTime (cs : List Char) : List Char :=
  match cs with
  | c :: rest =>
    if c == 'T' || c == 't' || c == ' ' then ((afterTime? rest).map dropShift).getD cs else cs
  | [] => []

/-- The text after a date, a time of day, or both. -/
def afterMoment? (cs : List Char) : Option (List Char) :=
  match afterDate? cs with
  | some rest => some (dropTime rest)
  | none => afterTime? cs

end Erl.Toml
