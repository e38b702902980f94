import HydraClient.Json.Basic
import HydraClient.Text.Digit

/-! # Reading JSON

Strict JSON with three additions: the words for not-a-number and the two infinities are values. A
repeated member keeps its first place and its last value. An integer of too many digits ends the
reading where it stands, whatever follows it, and so does half of a surrogate pair, which is no
character. Fuel bounds the nesting and is taken from the length of the text.
-/
namespace HydraClient.Json

inductive ReadFault where
  | malformed
  | intTooLong (digits : Nat)
  | surrogate (unit : Nat)
  deriving DecidableEq, Repr

abbrev Reading : Type → Type := Except ReadFault

def isSpace (c : Char) : Bool := c == ' ' || c == '\t' || c == '\n' || c == '\r'

def skipSpace (s : List Char) : List Char := s.dropWhile isSpace

def hexValue? (c : Char) : Option Nat :=
  if '0' ≤ c ∧ c ≤ '9' then some (c.toNat - 48)
  else if 'a' ≤ c ∧ c ≤ 'f' then some (c.toNat - 87)
  else if 'A' ≤ c ∧ c ≤ 'F' then some (c.toNat - 55)
  else none

def readUnit : List Char → Option (Nat × List Char)
  | a :: b :: c :: d :: rest => do
    let a ← hexValue? a
    let b ← hexValue? b
    let c ← hexValue? c
    let d ← hexValue? d
    pure (((a * 16 + b) * 16 + c) * 16 + d, rest)
  | _ => none

def unescape? (c : Char) : Option Char :=
  match c with
  | '"' => some '"'
  | '\\' => some '\\'
  | '/' => some '/'
  | 'b' => some '\x08'
  | 'f' => some '\x0c'
  | 'n' => some '\n'
  | 'r' => some '\r'
  | 't' => some '\t'
  | _ => none

/-- The character of a code unit, which may be the first half of a surrogate pair. -/
def joinUnits (unit : Nat) (rest : List Char) : Reading (Char × List Char) :=
  if 0xD800 ≤ unit && unit < 0xDC00 then
    match rest with
    | '\\' :: 'u' :: tail =>
      match readUnit tail with
      | some (low, tail) =>
        if 0xDC00 ≤ low && low < 0xE000 then
          .ok (Char.ofNat (0x10000 + (unit - 0xD800) * 0x400 + (low - 0xDC00)), tail)
        else .error (.surrogate unit)
      | none => .error .malformed
    | _ => .error (.surrogate unit)
  else if 0xDC00 ≤ unit && unit < 0xE000 then .error (.surrogate unit)
  else .ok (Char.ofNat unit, rest)

def readString : Nat → List Char → List Char → Reading (String × List Char)
  | 0, _, _ => .error .malformed
  | _ + 1, _, [] => .error .malformed
  | fuel + 1, acc, c :: rest =>
    if c = '"' then .ok (String.ofList acc.reverse, rest)
    else if c = '\\' then
      match rest with
      | 'u' :: tail =>
        match readUnit tail with
        | some (unit, tail) =>
          match joinUnits unit tail with
          | .ok (c, tail) => readString fuel (c :: acc) tail
          | .error f => .error f
        | none => .error .malformed
      | e :: tail =>
        match unescape? e with
        | some c => readString fuel (c :: acc) tail
        | none => .error .malformed
      | [] => .error .malformed
    else if c.toNat < 0x20 then .error .malformed
    else readString fuel (c :: acc) rest

def natOf (digits : List Char) : Nat :=
  digits.foldl (fun n c => n * 10 + (c.toNat - 48)) 0

/-- A fraction or exponent that is not complete is left unread. -/
def readNumber (s : List Char) : Reading (Json × List Char) :=
  let (negative, s) := match s with
    | '-' :: rest => (true, rest)
    | _ => (false, s)
  let whole := match s with
    | '0' :: _ => ['0']
    | _ => s.takeWhile Char.isDigit
  if whole.isEmpty then .error .malformed
  else
    let s := s.drop whole.length
    let (fraction, s) := match s with
      | '.' :: tail =>
        let ds := tail.takeWhile Char.isDigit
        if ds.isEmpty then (none, s) else (some ds, tail.drop ds.length)
      | _ => (none, s)
    let (exponent, s) := match s with
      | e :: tail =>
        if e = 'e' || e = 'E' then
          let (minus, body) := match tail with
            | '-' :: r => (true, r)
            | '+' :: r => (false, r)
            | _ => (false, tail)
          let ds := body.takeWhile Char.isDigit
          if ds.isEmpty then (none, s)
          else
            let n := Int.ofNat (natOf ds)
            (some (if minus then -n else n), body.drop ds.length)
        else (none, s)
      | [] => (none, s)
    if fraction.isNone && exponent.isNone then
      if Text.mostDigits < whole.length then .error (.intTooLong whole.length)
      else
        let n := Int.ofNat (natOf whole)
        .ok (.int (if negative then -n else n), s)
    else
      let ds := fraction.getD []
      .ok (.float (.ofDecimal negative (natOf (whole ++ ds)) (exponent.getD 0 - ds.length)), s)

def readWord (word : List Char) (v : Json) (s : List Char) : Reading (Json × List Char) :=
  if word.isPrefixOf s then .ok (v, s.drop word.length) else .error .malformed

mutual

def readValue : Nat → List Char → Reading (Json × List Char)
  | 0, _ => .error .malformed
  | fuel + 1, s =>
    match s with
    | '"' :: rest => (readString (rest.length + 1) [] rest).map fun r => (.str r.1, r.2)
    | '[' :: rest =>
      match skipSpace rest with
      | ']' :: tail => .ok (.arr [], tail)
      | body => readItems fuel [] body
    | '\x7b' :: rest =>
      match skipSpace rest with
      | '\x7d' :: tail => .ok (.obj [], tail)
      | body => readMembers fuel [] body
    | 'n' :: _ => readWord "null".toList .null s
    | 't' :: _ => readWord "true".toList (.bool true) s
    | 'f' :: _ => readWord "false".toList (.bool false) s
    | 'N' :: _ => readWord "NaN".toList (.float .nan) s
    | 'I' :: _ => readWord "Infinity".toList (.float (.infinite false)) s
    | '-' :: 'I' :: _ => readWord "-Infinity".toList (.float (.infinite true)) s
    | _ => readNumber s

/-- Items up to the closing bracket, the ones read so far backwards. -/
def readItems : Nat → List Json → List Char → Reading (Json × List Char)
  | 0, _, _ => .error .malformed
  | fuel + 1, acc, s => do
    let (v, s) ← readValue fuel s
    match skipSpace s with
    | ',' :: rest => readItems fuel (v :: acc) (skipSpace rest)
    | ']' :: rest => .ok (.arr (v :: acc).reverse, rest)
    | _ => .error .malformed

def readMembers : Nat → List (String × Json) → List Char → Reading (Json × List Char)
  | 0, _, _ => .error .malformed
  | fuel + 1, acc, s =>
    match s with
    | '"' :: rest => do
      let (k, s) ← readString (rest.length + 1) [] rest
      match skipSpace s with
      | ':' :: s => do
        let (v, s) ← readValue fuel (skipSpace s)
        let acc := put acc k v
        match skipSpace s with
        | ',' :: rest => readMembers fuel acc (skipSpace rest)
        | '\x7d' :: rest => .ok (.obj acc, rest)
        | _ => .error .malformed
      | _ => .error .malformed
    | _ => .error .malformed

end

def parse (text : String) : Reading Json := do
  let s := text.toList
  let (v, rest) ← readValue (s.length + 1) (skipSpace s)
  if (skipSpace rest).isEmpty then pure v else throw .malformed

end HydraClient.Json
