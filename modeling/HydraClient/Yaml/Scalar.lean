import HydraClient.Text.Base64
import HydraClient.Text.Digit
import HydraClient.Text.LetterCase
import HydraClient.Yaml.Fault
import HydraClient.Yaml.Tag

/-! # Scalars by tag

A tag reads any text that fits its kind, which is more than plain scalars of the kind may look like:
blanks may surround a number, and a float needs no point. A number in sixties has its places
separated by colons, and underscores count for nothing.
-/
namespace HydraClient.Yaml

def takeSign : List Char → Bool × List Char
  | '-' :: rest => (true, rest)
  | '+' :: rest => (false, rest)
  | s => (false, s)

def signed (negative : Bool) (n : Int) : Int := if negative then -n else n

def baseMark (base : Nat) (c : Char) : Bool :=
  (base == 2 && (c == 'b' || c == 'B')) || (base == 8 && (c == 'o' || c == 'O')) ||
    (base == 16 && (c == 'x' || c == 'X'))

def digitsIn? (base : Nat) (s : List Char) : Option Nat :=
  if s.isEmpty then none
  else s.foldlM (fun n c => do
    let d ← digitOf? c
    if d < base then some (n * base + d) else none) 0

def wholeIn (base : Nat) (s : List Char) : Except Fault Int :=
  let (negative, ds) := takeSign (Text.numerals s)
  let ds := match ds with
    | '0' :: c :: rest => if baseMark base c then rest else ds
    | _ => ds
  match digitsIn? base ds with
  | none => .error (.intUnreadable base (String.ofList s))
  | some n =>
    if base = 10 && Text.mostDigits < ds.length then .error (.intTooLong ds.length)
    else .ok (signed negative n)

/-- The value of places that are worth sixty times the ones behind them. -/
def sumOfPlaces (places : List Int) : Int := places.foldl (fun n p => n * 60 + p) 0

def int (s : String) : Except Fault Int := do
  let (negative, body) := takeSign (s.toList.filter (· != '_'))
  match body with
  | [] => throw .numberMissing
  | ['0'] => pure 0
  | '0' :: 'b' :: ds => return signed negative (← wholeIn 2 ds)
  | '0' :: 'x' :: ds => return signed negative (← wholeIn 16 ds)
  | '0' :: _ => return signed negative (← wholeIn 8 body)
  | _ =>
    let places ← (body.splitOn ':').mapM (wholeIn 10)
    return signed negative (sumOfPlaces places)

def exponent? (s : List Char) : Option Int :=
  let (negative, ds) := takeSign s
  if ds.all Char.isDigit then (digitsIn? 10 ds).map fun n => signed negative n else none

def decimal? (negative : Bool) (s : List Char) : Option Binary64 := do
  let whole := s.takeWhile Char.isDigit
  let (fraction, rest) := match s.drop whole.length with
    | '.' :: rest => (rest.takeWhile Char.isDigit, rest.dropWhile Char.isDigit)
    | rest => ([], rest)
  let exponent ← match rest with
    | [] => pure 0
    | c :: rest => if c = 'e' then exponent? rest else none
  let n ← digitsIn? 10 (whole ++ fraction)
  pure (.ofDecimal negative n (exponent - fraction.length))

def real (s : List Char) : Except Fault Binary64 :=
  let (negative, body) := takeSign (Text.numerals s)
  let word := String.ofList body
  if word = "inf" || word = "infinity" then .ok (.infinite negative)
  else if word = "nan" then .ok .nan
  else match decimal? negative body with
    | some x => .ok x
    | none => .error (.floatUnreadable (String.ofList s))

/-- Adds places from the last one on. Every sum and product is rounded. -/
def addPlaces (sum : Binary64) (worth : Nat) : List Binary64 → Except Fault Binary64
  | [] => .ok sum
  | p :: rest =>
    match Binary64.ofFraction false worth 1 with
    | .infinite _ => .error .placeTooLarge
    | w => addPlaces (sum.add (p.mul w)) (worth * 60) rest

def float (s : String) : Except Fault Binary64 := do
  let text := (Text.lower (String.ofList (s.toList.filter (· != '_')))).toList
  let (negative, body) := takeSign text
  if text.isEmpty then throw .numberMissing
  let x ←
    if String.ofList body = ".inf" then pure (.infinite false)
    else if String.ofList body = ".nan" then pure .nan
    else if body.contains ':' then do
      let places ← (body.splitOn ':').mapM real
      addPlaces .zero 1 places.reverse
    else real body
  return if negative then x.negate else x

def truth (s : String) : Except Fault Bool :=
  let word := Text.lower s
  if word = "yes" || word = "true" || word = "on" then .ok true
  else if word = "no" || word = "false" || word = "off" then .ok false
  else .error (.truthUnknown word)

def binary (s : String) : Except Fault (List UInt8) :=
  if s.toList.all fun c => c.toNat < 128 then
    match Text.decodeBase64? s.toList with
    | some content => .ok content
    | none => .error .malformed
  else .error .malformed

/-- A line feed at the end is overlooked. -/
def moment (s : String) : Except Fault Special :=
  let cs := s.toList
  let cs := if cs.getLast? == some '\n' then cs.dropLast else cs
  match WrittenMoment.read? cs with
  | some w => w.toSpecial.mapError .calendar
  | none => .error .momentUnreadable

/-- The value of a text under a tag. A tag that is not for scalars has none. -/
def Tag.scalar (t : Tag) (s : String) : Except Fault Scalar :=
  match t with
  | null => .ok .null
  | bool => (truth s).map .bool
  | int => (Yaml.int s).map .int
  | float => (Yaml.float s).map .float
  | binary => (Yaml.binary s).map fun content => .special (.bytes content)
  | timestamp => (moment s).map .special
  | str => .ok (.str s)
  | _ => .error .malformed

end HydraClient.Yaml
