import HydraClient.Number.Shortest

/-! # Numbers as text

Floating-point numbers are written with the fewest digits that read back, or with a fixed number of
places. The fixed form rounds the exact value, a half to the even neighbour.
-/
namespace HydraClient.Number

open HydraClient (Binary64 roundDiv)

/-- How a float is spelled: which decimal exponents are positional, how many digits an exponent has
at least, and the words for what is not a number. -/
structure Layout where
  positionalFrom : Int := -4
  positionalBelow : Int := 16
  exponentWidth : Nat := 2
  notANumber : String
  infinity : String

def digitChars (ds : List Nat) : String :=
  String.ofList (ds.map fun d => Char.ofNat (48 + d))

def padLeft (c : Char) (width : Nat) (s : String) : String :=
  String.ofList (List.replicate (width - s.length) c) ++ s

def padRight (width : Nat) (s : String) : String :=
  s ++ String.ofList (List.replicate (width - s.length) ' ')

namespace Layout

/-- A whole number keeps one decimal, which tells it from an integer. -/
def positional (d : Decimal) : String :=
  if d.point ≤ 0 then
    "0." ++ digitChars (List.replicate (-d.point).toNat 0) ++ digitChars d.digits
  else
    let p := d.point.toNat
    let whole := d.digits.take p ++ List.replicate (p - d.digits.length) 0
    let rest := d.digits.drop p
    digitChars whole ++ "." ++ (if rest.isEmpty then "0" else digitChars rest)

def scientific (l : Layout) (d : Decimal) : String :=
  let e := d.point - 1
  let mantissa := match d.digits with
    | [] => "0"
    | [a] => digitChars [a]
    | a :: rest => digitChars [a] ++ "." ++ digitChars rest
  mantissa ++ "e" ++ (if e < 0 then "-" else "+") ++
    padLeft '0' l.exponentWidth (digitChars (digitsOf e.natAbs))

def write (l : Layout) : Binary64 → String
  | .nan => l.notANumber
  | .infinite negative => (if negative then "-" else "") ++ l.infinity
  | .finite negative m e =>
    let d := shortest m e
    let x := d.point - 1
    (if negative then "-" else "") ++
      if m = 0 || (l.positionalFrom ≤ x && x < l.positionalBelow) then positional d
      else l.scientific d

end Layout

def fixed (places : Nat) : Binary64 → String
  | .nan => "nan"
  | .infinite negative => (if negative then "-" else "") ++ "inf"
  | .finite negative m e =>
    let n := roundDiv (m * twoTo e.toNat * tenTo places) (twoTo (-e).toNat)
    let whole := digitChars (digitsOf (n / tenTo places))
    let rest := padLeft '0' places (digitChars (digitsOf (n % tenTo places)))
    (if negative then "-" else "") ++ whole ++ (if places = 0 then "" else "." ++ rest)

def groupThrees : List Char → List Char
  | a :: b :: c :: d :: rest => a :: b :: c :: ',' :: groupThrees (d :: rest)
  | rest => rest

def grouped (n : Int) : String :=
  let digits := (groupThrees (Nat.toDigits 10 n.natAbs).reverse).reverse
  (if n < 0 then "-" else "") ++ String.ofList digits

end HydraClient.Number
