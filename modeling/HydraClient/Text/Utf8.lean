/-! # UTF-8

Bytes are decoded as a whole. The first ill-formed sequence is the fault, and covers the bytes that
could have started a character.
-/
namespace HydraClient.Text

structure DecodeFault where
  first : Nat
  bytes : List UInt8
  reason : String
  deriving DecidableEq, Repr

namespace DecodeFault

def hexByte (b : UInt8) : String :=
  let digit (n : Nat) : Char := if n < 10 then Char.ofNat (48 + n) else Char.ofNat (87 + n)
  String.ofList ['0', 'x', digit (b.toNat / 16), digit (b.toNat % 16)]

def message (f : DecodeFault) : String :=
  match f.bytes with
  | [b] => s!"'utf-8' codec can't decode byte {hexByte b} in position {f.first}: {f.reason}"
  | bs =>
    s!"'utf-8' codec can't decode bytes in position {f.first}-{f.first + bs.length - 1}: {f.reason}"

end DecodeFault

/-- The number of bytes that follow a first byte, and the range of the second one. -/
def followers? (b : UInt8) : Option (Nat × UInt8 × UInt8) :=
  if 0xC2 ≤ b && b ≤ 0xDF then some (1, 0x80, 0xBF)
  else if b == 0xE0 then some (2, 0xA0, 0xBF)
  else if b == 0xED then some (2, 0x80, 0x9F)
  else if 0xE1 ≤ b && b ≤ 0xEF then some (2, 0x80, 0xBF)
  else if b == 0xF0 then some (3, 0x90, 0xBF)
  else if b == 0xF4 then some (3, 0x80, 0x8F)
  else if 0xF1 ≤ b && b ≤ 0xF3 then some (3, 0x80, 0xBF)
  else none

/-- How many of the wanted following bytes are fit, and whether the text ended before the rest. -/
def fitting : Nat → UInt8 → UInt8 → List UInt8 → Nat × Bool
  | 0, _, _, _ => (0, false)
  | _ + 1, _, _, [] => (0, true)
  | n + 1, low, high, b :: rest =>
    if low ≤ b && b ≤ high then
      let (k, ended) := fitting n 0x80 0xBF rest
      (k + 1, ended)
    else (0, false)

def faultFrom : Nat → Nat → List UInt8 → DecodeFault
  | 0, position, bs => ⟨position, bs, "invalid start byte"⟩
  | _ + 1, position, [] => ⟨position, [], "unexpected end of data"⟩
  | fuel + 1, position, b :: rest =>
    if b < 0x80 then faultFrom fuel (position + 1) rest
    else match followers? b with
      | none => ⟨position, [b], "invalid start byte"⟩
      | some (n, low, high) =>
        let (k, ended) := fitting n low high rest
        if k = n then faultFrom fuel (position + n + 1) (rest.drop n)
        else ⟨position, b :: rest.take k,
          if ended then "unexpected end of data" else "invalid continuation byte"⟩

def decodeUtf8 (content : ByteArray) : Except DecodeFault String :=
  if h : content.validateUTF8 = true then
    .ok (String.ofByteArray content (ByteArray.validateUTF8_eq_true_iff.1 h))
  else .error (faultFrom (content.size + 1) 0 content.data.toList)

theorem decodeUtf8_toByteArray (s : String) : decodeUtf8 s.toByteArray = .ok s := by
  have h : s.toByteArray.validateUTF8 = true :=
    ByteArray.validateUTF8_eq_true_iff.2 s.isValidUTF8
  simp [decodeUtf8, h]

end HydraClient.Text
