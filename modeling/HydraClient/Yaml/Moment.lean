import HydraClient.Json.Scalar

/-! # Written days and moments

A day is written as its year, month and day. The time of day may follow after the letter T or
blanks, and then the distance from universal time.
-/
namespace HydraClient.Yaml

structure WrittenTime where
  hour : Nat
  minute : Nat
  second : Nat
  /-- The digits after the point of the second. -/
  fraction : List Char
  offset : Option Int

/-- What is written, whether the calendar has such a day or not. -/
structure WrittenMoment where
  date : Date
  /-- Whether month and day have two digits each. -/
  inFull : Bool
  time : Option WrittenTime

namespace WrittenMoment

def natOf (ds : List Char) : Nat := ds.foldl (fun n c => n * 10 + (c.toNat - 48)) 0

/-- A number with as many digits as possible between two bounds. -/
def number? (least most : Nat) (s : List Char) : Option (List Char × List Char) :=
  let ds := (s.take most).takeWhile Char.isDigit
  if ds.length < least then none else some (ds, s.drop ds.length)

def mark? (c : Char) : List Char → Option (List Char)
  | d :: rest => if c = d then some rest else none
  | [] => none

def isTabOrSpace (c : Char) : Bool := c == ' ' || c == '\t'

def readOffset? (s : List Char) : Option (Option Int) :=
  match s with
  | [] => some none
  | _ =>
    match s.dropWhile isTabOrSpace with
    | ['Z'] => some (some 0)
    | sign :: rest =>
      if sign != '+' && sign != '-' then none
      else do
        let (hours, rest) ← number? 1 2 rest
        let minutes ← match rest with
          | [] => pure []
          | _ => do
            let (minutes, rest) ← number? 2 2 (← mark? ':' rest)
            if rest.isEmpty then pure minutes else none
        let n := Int.ofNat (natOf hours * 60 + natOf minutes)
        pure (some (if sign = '-' then -n else n))
    | [] => none

def readTime? (s : List Char) : Option WrittenTime := do
  let (hour, s) ← number? 1 2 s
  let (minute, s) ← number? 2 2 (← mark? ':' s)
  let (second, s) ← number? 2 2 (← mark? ':' s)
  let (fraction, s) := match s with
    | '.' :: rest => (rest.takeWhile Char.isDigit, rest.dropWhile Char.isDigit)
    | _ => ([], s)
  pure ⟨natOf hour, natOf minute, natOf second, fraction, ← readOffset? s⟩

def read? (s : List Char) : Option WrittenMoment := do
  let (year, s) ← number? 4 4 s
  let (month, s) ← number? 1 2 (← mark? '-' s)
  let (day, s) ← number? 1 2 (← mark? '-' s)
  let time ← match s with
    | [] => pure none
    | c :: rest =>
      if c = 'T' || c = 't' then (readTime? rest).map some
      else if isTabOrSpace c then (readTime? (rest.dropWhile isTabOrSpace)).map some
      else none
  pure ⟨⟨natOf year, natOf month, natOf day⟩, month.length == 2 && day.length == 2, time⟩

/-- Whether a plain scalar of the text is taken for a moment: a day alone must be written in
full. -/
def isPlain (w : WrittenMoment) : Bool := w.time.isSome || w.inFull

/-- The day or moment, if the calendar has it. Fractions are cut to microseconds. -/
def toSpecial (w : WrittenMoment) : Except CalendarFault Special :=
  match w.time with
  | none => w.date.check.map .date
  | some t =>
    let digits := t.fraction.take 6
    let m : Moment := {
      date := w.date
      hour := t.hour
      minute := t.minute
      second := t.second
      microsecond := natOf digits * tenTo (6 - digits.length)
      offset := t.offset }
    m.check.map .moment

end WrittenMoment
end HydraClient.Yaml
