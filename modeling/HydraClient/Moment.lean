/-! # Days and moments

Days of the calendar from the year one to the year 9999, and moments of such a day to the
microsecond. A moment may tell how far its clock is from universal time; two that both tell it are
equal when they are the same instant.
-/
namespace HydraClient

structure Date where
  year : Nat
  month : Nat
  day : Nat
  deriving DecidableEq, Repr

/-- The part of a date or of a clock that is out of range. -/
inductive CalendarFault where
  | year (year : Nat)
  | month
  | day
  | hour
  | minute
  | second
  /-- The distance from universal time, in minutes. -/
  | offset (minutes : Int)
  deriving DecidableEq, Repr

namespace Date

def isLeap (year : Nat) : Bool := year % 4 == 0 && (year % 100 != 0 || year % 400 == 0)

def daysIn (year month : Nat) : Nat :=
  if month = 2 then (if isLeap year then 29 else 28)
  else if month = 4 || month = 6 || month = 9 || month = 11 then 30 else 31

/-- The days from the start of the year zero to the given day, counted from March so that a leap
day is the last of its year. -/
def dayNumber (d : Date) : Nat :=
  let year := if d.month < 3 then d.year - 1 else d.year
  let month := if d.month < 3 then d.month + 9 else d.month - 3
  365 * year + year / 4 - year / 100 + year / 400 + (153 * month + 2) / 5 + d.day

def check (d : Date) : Except CalendarFault Date :=
  if d.year = 0 || 9999 < d.year then .error (.year d.year)
  else if d.month = 0 || 12 < d.month then .error .month
  else if d.day = 0 || daysIn d.year d.month < d.day then .error .day
  else .ok d

end Date

structure Moment where
  date : Date
  hour : Nat
  minute : Nat
  second : Nat
  microsecond : Nat := 0
  /-- The distance from universal time in minutes, if known. -/
  offset : Option Int := none
  deriving DecidableEq, Repr

namespace Moment

def minuteNumber (m : Moment) (offset : Int) : Int :=
  Int.ofNat ((m.date.dayNumber * 24 + m.hour) * 60 + m.minute) - offset

/-- A moment of known distance never equals one of unknown distance. -/
def equals (a b : Moment) : Bool :=
  match a.offset, b.offset with
  | none, none => a == b
  | some p, some q =>
    a.minuteNumber p == b.minuteNumber q && a.second == b.second && a.microsecond == b.microsecond
  | _, _ => false

def check (m : Moment) : Except CalendarFault Moment := do
  match m.offset with
  | some o => if 1440 ≤ o.natAbs then throw (.offset o)
  | none => pure ()
  let _ ← m.date.check
  if 23 < m.hour then throw .hour
  else if 59 < m.minute then throw .minute
  else if 59 < m.second then throw .second
  else pure m

def lengthText (minutes : Int) : String :=
  let days := Int.fdiv minutes 1440
  let seconds := Int.fmod minutes 1440 * 60
  let parts := (if days = 0 then [] else ["days=" ++ toString days]) ++
    (if seconds = 0 then [] else ["seconds=" ++ toString seconds])
  "datetime.timedelta(" ++ (if parts.isEmpty then "0" else String.intercalate ", " parts) ++ ")"

end Moment
end HydraClient
