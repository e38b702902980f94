import HydraClient.Json.Basic
import HydraClient.Number.Text
import HydraClient.Text.Quoted

/-! # Values in messages

A message shows a string as it is and any other value in its inspected form, where strings stand in
quotes and the three constants are capitalised words.
-/
namespace HydraClient.Json

def inspectLayout : Number.Layout where
  notANumber := "nan"
  infinity := "inf"

/-- Seconds and microseconds are left out at the end when they are zero. -/
def inspectMoment (m : Moment) : String :=
  let clock := [m.date.year, m.date.month, m.date.day, m.hour, m.minute] ++
    (if m.microsecond != 0 then [m.second, m.microsecond]
      else if m.second != 0 then [m.second] else [])
  let zone := match m.offset with
    | none => []
    | some 0 => ["tzinfo=datetime.timezone.utc"]
    | some o => ["tzinfo=datetime.timezone(" ++ Moment.lengthText o ++ ")"]
  "datetime.datetime(" ++ String.intercalate ", " (clock.map toString ++ zone) ++ ")"

def inspectByte (mark : Char) (b : UInt8) : List Char :=
  let c := Char.ofNat b.toNat
  if c = mark || c = '\\' then ['\\', c]
  else if c = '\n' then ['\\', 'n']
  else if c = '\r' then ['\\', 'r']
  else if c = '\t' then ['\\', 't']
  else if 0x20 ≤ b.toNat && b.toNat < 0x7F then [c]
  else '\\' :: 'x' :: Text.hexDigits 2 b.toNat

def inspectBytes (content : List UInt8) : String :=
  let mark := Text.quoteMark (content.map fun b => Char.ofNat b.toNat)
  String.ofList ('b' :: mark :: (content.flatMap (inspectByte mark) ++ [mark]))

def inspectScalar : Scalar → String
  | .null => "None"
  | .bool true => "True"
  | .bool false => "False"
  | .int n => toString n
  | .float x => inspectLayout.write x
  | .str s => Text.quoted s
  | .special (.date d) => s!"datetime.date({d.year}, {d.month}, {d.day})"
  | .special (.moment m) => inspectMoment m
  | .special (.bytes content) => inspectBytes content

mutual

def inspect : Json → String
  | null => inspectScalar .null
  | bool b => inspectScalar (.bool b)
  | int n => inspectScalar (.int n)
  | float x => inspectScalar (.float x)
  | str s => inspectScalar (.str s)
  | special s => inspectScalar (.special s)
  | set members =>
    if members.isEmpty then "set()"
    else "\x7b" ++ String.intercalate ", " (members.map inspectScalar) ++ "\x7d"
  | dict members => "\x7b" ++ String.intercalate ", " (inspectEntries members) ++ "\x7d"
  | loop => "[...]"
  | arr items => "[" ++ String.intercalate ", " (inspectItems items) ++ "]"
  | obj members => "\x7b" ++ String.intercalate ", " (inspectMembers members) ++ "\x7d"

def inspectItems : List Json → List String
  | [] => []
  | x :: xs => inspect x :: inspectItems xs

def inspectMembers : List (String × Json) → List String
  | [] => []
  | (k, v) :: ms => (Text.quoted k ++ ": " ++ inspect v) :: inspectMembers ms

def inspectEntries : List (Scalar × Json) → List String
  | [] => []
  | (k, v) :: ms => (inspectScalar k ++ ": " ++ inspect v) :: inspectEntries ms

end

def display : Json → String
  | str s => s
  | v => v.inspect

end HydraClient.Json
