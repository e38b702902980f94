/-! # Double-precision numbers

A finite number is a sign, a significand below 2^53 and an exponent of two. Rounding a fraction is
exact integer arithmetic, and a half goes to the even neighbour.
-/
namespace HydraClient

def roundDiv (num den : Nat) : Nat :=
  let q := num / den
  let r := 2 * (num % den)
  if r < den then q else if den < r then q + 1 else if q % 2 = 0 then q else q + 1

def twoTo (e : Nat) : Nat := Nat.pow 2 e

def tenTo (e : Nat) : Nat := Nat.pow 10 e

inductive Binary64 where
  | nan
  | infinite (negative : Bool)
  | finite (negative : Bool) (significand : Nat) (exponent : Int)
  deriving DecidableEq, Repr

namespace Binary64

def minExponent : Int := -1074

def maxExponent : Int := 971

def zero : Binary64 := .finite false 0 minExponent

instance : Inhabited Binary64 := ⟨zero⟩

/-- Scales a fraction by a power of two: the numerator and denominator of num / den / 2^e. -/
def scaled (num den : Nat) (e : Int) : Nat × Nat :=
  if 0 ≤ e then (num, den * twoTo e.toNat) else (num * twoTo (-e).toNat, den)

/-- The exponent at which the fraction has 53 bits before the point, or the least one. The first
guess is at most two too small. -/
def exponentFor (num den : Nat) : Int :=
  let fits (e : Int) : Bool :=
    let (n, d) := scaled num den e
    n / d < twoTo 53
  let e := max minExponent (Int.ofNat num.log2 - Int.ofNat den.log2 - 53)
  if fits e then e else if fits (e + 1) then e + 1 else e + 2

def ofFraction (negative : Bool) (num den : Nat) : Binary64 :=
  if num = 0 then .finite negative 0 minExponent
  else
    let e := exponentFor num den
    let (n, d) := scaled num den e
    let m := roundDiv n d
    let (m, e) := if m = twoTo 53 then (twoTo 52, e + 1) else (m, e)
    if maxExponent < e then .infinite negative else .finite negative m e

/-- The number nearest to digits · 10^exponent. Exponents far outside the range are cut short. -/
def ofDecimal (negative : Bool) (digits : Nat) (exponent : Int) : Binary64 :=
  let magnitude := exponent + (Nat.toDigits 10 digits).length
  if digits = 0 then .finite negative 0 minExponent
  else if 320 < magnitude then .infinite negative
  else if magnitude < -340 then .finite negative 0 minExponent
  else if 0 ≤ exponent then ofFraction negative (digits * tenTo exponent.toNat) 1
  else ofFraction negative digits (tenTo (-exponent).toNat)

def equalsInt (x : Binary64) (n : Int) : Bool :=
  match x with
  | .finite negative m e =>
    let (p, q) := scaled n.natAbs 1 e
    p == m * q && (m == 0 || negative == decide (n < 0))
  | _ => false

/-- Numeric equality: the two zeros are equal and nothing equals a NaN. -/
def equals (x y : Binary64) : Bool :=
  match x, y with
  | .finite _ 0 _, .finite _ 0 _ => true
  | .nan, _ => false
  | x, y => x == y

def isZero : Binary64 → Bool
  | .finite _ m _ => m == 0
  | _ => false

def toInt? : Binary64 → Option Int
  | .finite negative m e =>
    let n : Option Nat :=
      if 0 ≤ e then some (m * twoTo e.toNat)
      else if m % twoTo (-e).toNat = 0 then some (m / twoTo (-e).toNat) else none
    n.map fun n => if negative then -Int.ofNat n else Int.ofNat n
  | _ => none

def negate : Binary64 → Binary64
  | .nan => .nan
  | .infinite negative => .infinite !negative
  | .finite negative m e => .finite (!negative) m e

def ofUnits (negative : Bool) (n : Nat) (e : Int) : Binary64 :=
  ofFraction negative (n * twoTo e.toNat) (twoTo (-e).toNat)

/-- The rounded sum. Infinities of both signs have none. -/
def add : Binary64 → Binary64 → Binary64
  | .nan, _ => .nan
  | _, .nan => .nan
  | .infinite a, .infinite b => if a = b then .infinite a else .nan
  | .infinite a, _ => .infinite a
  | _, .infinite b => .infinite b
  | .finite a m e, .finite b n f =>
    let least := min e f
    let units (negative : Bool) (m : Nat) (e : Int) : Int :=
      let k := Int.ofNat (m * twoTo (e - least).toNat)
      if negative then -k else k
    let total := units a m e + units b n f
    ofUnits (if total = 0 then a && b else total < 0) total.natAbs least

/-- The rounded product. Zero times an infinity is no number. -/
def mul : Binary64 → Binary64 → Binary64
  | .nan, _ => .nan
  | _, .nan => .nan
  | .infinite a, .infinite b => .infinite (a != b)
  | .infinite a, .finite b n _ => if n = 0 then .nan else .infinite (a != b)
  | .finite a m _, .infinite b => if m = 0 then .nan else .infinite (a != b)
  | .finite a m e, .finite b n f => ofUnits (a != b) (m * n) (e + f)

end Binary64
end HydraClient
