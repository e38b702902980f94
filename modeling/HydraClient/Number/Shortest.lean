import HydraClient.Number.Binary64

/-! # The shortest decimal that reads back

Among the decimals that round to a number, the ones with the fewest digits are taken, and of these
the nearest. Each digit count has one grid, and only the two grid points around the number can be
the nearest to it.
-/
namespace HydraClient.Number

open HydraClient (Binary64)

/-- A decimal 0.d₁d₂… · 10^point, whose digits are those of a whole number. -/
structure Decimal where
  digits : List Nat
  point : Int
  deriving DecidableEq, Repr

def digitsOf (n : Nat) : List Nat := (Nat.toDigits 10 n).map fun c => c.toNat - 48

/-- The interval that rounds to a number, in quarters of its last place: the value itself is four
times the significand. The ends belong to it when the significand is even. Just above a power of
two the interval reaches only half as far down. -/
structure Neighbourhood where
  low : Nat
  middle : Nat
  high : Nat
  closed : Bool

def neighbourhood (m : Nat) (e : Int) : Neighbourhood where
  low := if m = twoTo 52 && Binary64.minExponent < e then 4 * m - 1 else 4 * m - 2
  middle := 4 * m
  high := 4 * m + 2
  closed := m % 2 == 0

/-- The number of digits before the point of m · 2^e: the least p with m · 2^e < 10^p. -/
def pointOf (m : Nat) (e : Int) : Int :=
  let below (p : Int) : Bool :=
    m * twoTo e.toNat * tenTo (-p).toNat < tenTo p.toNat * twoTo (-e).toNat
  let bits := Int.ofNat m.log2 + e
  -- 30103 / 100000 is the decimal logarithm of two, off by less than one over the whole range
  let guess := Int.fdiv (bits * 30103) 100000
  if below (guess - 1) then guess - 1 else if below guess then guess
  else if below (guess + 1) then guess + 1 else guess + 2

/-- The nearest grid point with `count` digits, if one lies in the neighbourhood. -/
def nearestOn (m : Nat) (e point : Int) (count : Nat) : Option Decimal :=
  let n := neighbourhood m e
  let unit := point - count
  -- grid point k stands for k · 10^unit, and quarters q for q · 2^(e - 2)
  let up := twoTo (e - 2).toNat * tenTo (-unit).toNat
  let down := twoTo (2 - e).toNat * tenTo unit.toNat
  let value := n.middle * up
  let f := value / down
  let inside (k : Nat) : Bool :=
    if n.closed then n.low * up ≤ k * down && k * down ≤ n.high * up
    else n.low * up < k * down && k * down < n.high * up
  let toFloor := value - f * down
  let toCeil := (f + 1) * down - value
  let pick :=
    if inside f && inside (f + 1) then
      if toFloor < toCeil then some f
      else if toCeil < toFloor then some (f + 1)
      else if f % 2 = 0 then some f else some (f + 1)
    else if inside f then some f
    else if inside (f + 1) then some (f + 1)
    else none
  pick.map fun k =>
    let ds := digitsOf k
    -- a carry to the next power of ten has one digit more
    ⟨(ds.reverse.dropWhile (· == 0)).reverse, unit + ds.length⟩

/-- Seventeen digits always suffice. -/
def shortest (m : Nat) (e : Int) : Decimal :=
  if m = 0 then ⟨[0], 1⟩
  else
    let point := pointOf m e
    ((List.range 17).findSome? fun i => nearestOn m e point (i + 1)).getD ⟨digitsOf m, point⟩

end HydraClient.Number
