/-! # Base 64

Four characters stand for three bytes. Characters outside the alphabet are overlooked, and padding
that completes a group ends the text.
-/
namespace HydraClient.Text

def sextet? (c : Char) : Option Nat :=
  if 'A' ≤ c ∧ c ≤ 'Z' then some (c.toNat - 65)
  else if 'a' ≤ c ∧ c ≤ 'z' then some (c.toNat - 71)
  else if c.isDigit then some (c.toNat + 4)
  else if c = '+' then some 62
  else if c = '/' then some 63
  else none

/-- Reads on after `count` characters of a group, whose last bits are `left`, and `pads` marks of
padding. A group that is neither complete nor padded has no bytes. -/
def decodeGroup (count left pads : Nat) (acc : List UInt8) : List Char → Option (List UInt8)
  | [] => if count = 0 then some acc.reverse else none
  | c :: rest =>
    if c = '=' then
      if count < 2 then decodeGroup count left pads acc rest
      else if 4 ≤ count + pads + 1 then some acc.reverse
      else decodeGroup count left (pads + 1) acc rest
    else match sextet? c with
      | none => decodeGroup count left pads acc rest
      | some n =>
        match count with
        | 0 => decodeGroup 1 n 0 acc rest
        | 1 => decodeGroup 2 (n % 16) 0 ((left * 4 + n / 16).toUInt8 :: acc) rest
        | 2 => decodeGroup 3 (n % 4) 0 ((left * 16 + n / 4).toUInt8 :: acc) rest
        | _ => decodeGroup 0 0 0 ((left * 64 + n).toUInt8 :: acc) rest

def decodeBase64? (s : List Char) : Option (List UInt8) := decodeGroup 0 0 0 [] s

end HydraClient.Text
