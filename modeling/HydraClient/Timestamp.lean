/-! # Points in time

A point in time is written by the calendar, to the second.
-/
namespace HydraClient

/-- A point in time by the calendar, with the distance from universal time in minutes if known. -/
structure Timestamp where
  year : Nat
  month : Nat
  day : Nat
  hour : Nat
  minute : Nat
  second : Nat
  offset : Option Int := none
  deriving DecidableEq, Repr

namespace Timestamp

def digits (width n : Nat) : String :=
  let ds := Nat.toDigits 10 n
  String.ofList (List.replicate (width - ds.length) '0' ++ ds)

def text (t : Timestamp) : String :=
  digits 4 t.year ++ "-" ++ digits 2 t.month ++ "-" ++ digits 2 t.day ++ "T" ++
    digits 2 t.hour ++ ":" ++ digits 2 t.minute ++ ":" ++ digits 2 t.second ++
    match t.offset with
    | none => ""
    | some m =>
      (if m < 0 then "-" else "+") ++ digits 2 (m.natAbs / 60) ++ ":" ++ digits 2 (m.natAbs % 60)

/-- The universal time that many seconds after the start of 1970. Years are counted from March, so
that a leap day is the last of its year. -/
def ofSeconds (n : Nat) : Timestamp :=
  let days := n / 86400 + 719468
  let day := days % 146097
  let year := (day - day / 1460 + day / 36524 - day / 146096) / 365
  let day := day - (365 * year + year / 4 - year / 100)
  let month := (5 * day + 2) / 153
  { year := days / 146097 * 400 + year + (if month < 10 then 0 else 1)
    month := if month < 10 then month + 3 else month - 9
    day := day - (153 * month + 2) / 5 + 1
    hour := n / 3600 % 24
    minute := n / 60 % 60
    second := n % 60
    offset := some 0 }

end Timestamp
end HydraClient
