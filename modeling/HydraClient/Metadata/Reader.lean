import HydraClient.Json.Display
import HydraClient.Metadata.Checked
import HydraClient.OrderedMap
import HydraClient.Text.Blank
import HydraClient.Text.Utf8

/-! # Reading values

The readers are lenient about scalars: truth values and whole numbers are also accepted as text,
and as each other, and text as bytes. A set may stand for a list; apart from that lists and objects
must be what they are. A record reads its members in a fixed order and refuses every member that it
does not know.
-/
namespace HydraClient.Metadata

namespace Read

variable {α : Type}

/-- Bytes count as the text that they encode. -/
def textOf? (content : List UInt8) : Option String :=
  (Text.decodeUtf8 ⟨content.toArray⟩).toOption

def string : Json → Checked String
  | .str s => .valid s
  | .special (.bytes content) =>
    match textOf? content with
    | some s => .valid s
    | none => .fail .stringUnreadable
  | _ => .fail .stringExpected

def stringOf (least : Nat) (v : Json) : Checked String :=
  (string v).andThen fun s => if s.length < least then .fail .stringTooShort else .valid s

def nonempty : Json → Checked String := stringOf 1

def anything (v : Json) : Checked Json := .valid v

def orNull (read : Json → Checked α) : Json → Checked (Option α)
  | .null => .valid none
  | v => (read v).map some

def truthWords : List String := ["1", "on", "t", "true", "y", "yes"]

def falsehoodWords : List String := ["0", "off", "f", "false", "n", "no"]

/-- Integers are looked at within 64 bits only. -/
def isWord64 (n : Int) : Bool := -9223372036854775808 ≤ n && n < 9223372036854775808

def truthOfInt (n : Int) : Checked Bool :=
  if n = 0 then .valid false
  else if n = 1 then .valid true
  else if isWord64 n then .fail .truthUnreadable
  else .fail .truthExpected

def truthOfText (s : String) : Checked Bool :=
  let w := String.ofList (s.toList.map Char.toLower)
  if truthWords.contains w then .valid true
  else if falsehoodWords.contains w then .valid false
  else .fail .truthUnreadable

def truth : Json → Checked Bool
  | .bool b => .valid b
  | .int n => truthOfInt n
  | .float x =>
    match x.toInt? with
    | some n => truthOfInt n
    | none => .fail .truthExpected
  | .str s => truthOfText s
  | .special (.bytes content) => truthOfText ((textOf? content).getD "")
  | _ => .fail .truthExpected

def digitValue? : Option Nat → List Char → Option Nat
  | acc, [] => acc
  | acc, '_' :: c :: rest =>
    if acc.isSome && c.isDigit then digitValue? (acc.map (· * 10 + (c.toNat - 48))) rest else none
  | acc, c :: rest =>
    if c.isDigit then digitValue? (some (acc.getD 0 * 10 + (c.toNat - 48))) rest else none

/-- Cuts off a point that is followed by zeros only, and by one at least. -/
def dropZeroFraction (s : List Char) : List Char :=
  let zeros := s.reverse.takeWhile (· == '0')
  match s.reverse.drop zeros.length with
  | '.' :: rest => if zeros.isEmpty then s else rest.reverse
  | _ => s

def intText? (s : String) : Option Int :=
  let cs := dropZeroFraction (Text.trimWhere Text.isWhiteSpace s.toList)
  match cs with
  | '-' :: ds => (digitValue? none ds).map fun n => -Int.ofNat n
  | '+' :: ds => (digitValue? none ds).map Int.ofNat
  | ds => (digitValue? none ds).map Int.ofNat

/-- A text that is too long for a number is not looked into. -/
def intOfText (s : String) : Checked Int :=
  let trimmed := Text.trimWhere Text.isWhiteSpace s.toList
  if Text.mostDigits < (String.ofList trimmed).utf8ByteSize then .fail .intTooLong
  else match intText? s with
    | some n => .valid n
    | none => .fail .intUnreadable

def int : Json → Checked Int
  | .int n => .valid n
  | .bool b => .valid (if b then 1 else 0)
  | .float x =>
    match x with
    | .finite _ _ _ =>
      match x.toInt? with
      | some n => if isWord64 n then .valid n else .fail .intTooLong
      | none => .fail .intFraction
    | _ => .fail .notFinite
  | .str s => intOfText s
  | .special (.bytes content) => intOfText ((textOf? content).getD "")
  | _ => .fail .intExpected

def intFrom (least : Int) (v : Json) : Checked Int :=
  (int v).andThen fun n => if n < least then .fail .tooSmall else .valid n

def items (read : Json → Checked α) : Nat → List Json → Checked (List α)
  | _, [] => .valid []
  | i, v :: rest => List.cons <$> (read v).under (.item i) <*> items read (i + 1) rest

def list (read : Json → Checked α) : Json → Checked (List α)
  | .arr vs => items read 0 vs
  | .set keys => items read 0 (keys.map Scalar.toJson)
  | _ => .fail .listExpected

/-- The step to the member of a key. Whole numbers and truth values count as indices. -/
def stepOf : Scalar → Step
  | .str s => .member s
  | .bool b => .item (if b then 1 else 0)
  | .int n =>
    if isWord64 n then .item n
    else .member (if Text.isOverlong n then "<unprintable int object>" else toString n)
  | k => .member (Json.inspectScalar k)

def entries (read : Json → Checked α) : Json.Members → Checked (List (String × α))
  | [] => .valid []
  | (k, v) :: rest =>
    (fun name a more => (name, a) :: more)
      <$> ((string k.toJson).under (.member "[key]")).under (stepOf k)
      <*> (read v).under (stepOf k)
      <*> entries read rest

def mapping (read : Json → Checked α) (v : Json) : Checked (OrderedMap String α) :=
  match v.members? with
  | some ms => (entries read ms).map .ofList
  | none => .fail .mapExpected

/-- The name of a member. Some members have a second spelling, used when the first is absent. -/
structure Label where
  name : String
  other : Option String := none

instance : Coe String Label := ⟨fun name => ⟨name, none⟩⟩

namespace Label

def find? (l : Label) (ms : Json.Members) : Option Json :=
  match Json.lookup? l.name ms with
  | some v => some v
  | none => l.other.bind fun o => Json.lookup? o ms

def spelling (l : Label) (ms : Json.Members) : String :=
  match l.other with
  | some o => if (Json.lookup? l.name ms).isSome then l.name else o
  | none => l.name

end Label

def member (ms : Json.Members) (l : Label) (read : Json → Checked α) : Checked α :=
  match l.find? ms with
  | some v => (read v).under (.member l.name)
  | none => .invalid [⟨[.member l.name], .missing⟩]

def memberOr (ms : Json.Members) (l : Label) (default : α) (read : Json → Checked α) :
    Checked α :=
  match l.find? ms with
  | some v => (read v).under (.member l.name)
  | none => .valid default

/-- What a key is refused for in a record with the given names. -/
def strayFault? (names : List String) (key : Scalar) : Option Fault :=
  match string key.toJson with
  | .valid name => if names.contains name then none else some .unknownMember
  | .invalid _ => some .keyInvalid

def closed (ms : Json.Members) (known : List Label) : Checked Unit :=
  let names := known.map (·.spelling ms)
  let issues := ms.filterMap fun m =>
    (strayFault? names m.1).map fun f => (⟨[stepOf m.1], f⟩ : Issue)
  if issues.isEmpty then .valid () else .invalid issues

def record (read : Json.Members → Checked α) (v : Json) : Checked α :=
  match v.members? with
  | some ms => read ms
  | none => .fail .recordExpected

end Read
end HydraClient.Metadata
