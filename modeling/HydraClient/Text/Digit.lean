import HydraClient.Text.Blank

/-! # Decimal digits

Every script has its digits in a row of ten. Numbers may be written in any of them.
-/
namespace HydraClient.Text

/-- The zeros of the scripts beyond ASCII. -/
def wideZeros : List Nat :=
  [0x660, 0x6F0, 0x7C0, 0x966, 0x9E6, 0xA66, 0xAE6, 0xB66, 0xBE6, 0xC66, 0xCE6, 0xD66, 0xDE6,
    0xE50, 0xED0, 0xF20, 0x1040, 0x1090, 0x17E0, 0x1810, 0x1946, 0x19D0, 0x1A80, 0x1A90, 0x1B50,
    0x1BB0, 0x1C40, 0x1C50, 0xA620, 0xA8D0, 0xA900, 0xA9D0, 0xA9F0, 0xAA50, 0xABF0, 0xFF10,
    0x104A0, 0x10D30, 0x11066, 0x110F0, 0x11136, 0x111D0, 0x112F0, 0x11450, 0x114D0, 0x11650,
    0x116C0, 0x11730, 0x118E0, 0x11950, 0x11C50, 0x11D50, 0x11DA0, 0x16A60, 0x16AC0, 0x16B50,
    0x1D7CE, 0x1D7D8, 0x1D7E2, 0x1D7EC, 0x1D7F6, 0x1E140, 0x1E2F0, 0x1E950, 0x1FBF0]

def zeroOf? (n : Nat) : Option Nat := wideZeros.find? fun z => z ≤ n && n < z + 10

/-- A character as numbers are read: digits and blanks beyond ASCII count as those of ASCII. -/
def numeral (c : Char) : Char :=
  if c.toNat < 128 then c
  else match zeroOf? c.toNat with
    | some z => Char.ofNat (48 + (c.toNat - z))
    | none => if isBlank c then ' ' else c

def mostDigits : Nat := 4300

def isOverlong (n : Int) : Bool := mostDigits < (Nat.toDigits 10 n.natAbs).length

def digitLimit : String :=
  "Exceeds the limit (4300 digits) for integer string conversion; " ++
    "use sys.set_int_max_str_digits() to increase the limit"

def isAsciiSpace (c : Char) : Bool := c == ' ' || (9 ≤ c.toNat && c.toNat ≤ 13)

def numerals (s : List Char) : List Char := trimWhere isAsciiSpace (s.map numeral)

end HydraClient.Text
