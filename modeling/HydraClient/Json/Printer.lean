import HydraClient.Json.Basic
import HydraClient.Number.Text
import HydraClient.Text.Digit

/-! # JSON text

The compact form separates with a comma or colon and a space. The pretty form puts every item on a
line of its own, four spaces deeper than its container. Text beyond ASCII stays as it is.

Keys that are no strings are written as the text of their value, so that one text may stand for two
members. A value that has no form in JSON is refused; the forms print it as null. An integer of too
many digits is refused as well.
-/
namespace HydraClient.Json

/-- Floats print with the fewest digits; what is not a number has a word of its own. -/
def floatLayout : Number.Layout where
  notANumber := "NaN"
  infinity := "Infinity"

def hexDigit (n : Nat) : Char :=
  if n < 10 then Char.ofNat (48 + n) else Char.ofNat (87 + n)

/-- Only the quote, the backslash and control characters are escaped. -/
def escapeChar (c : Char) : List Char :=
  if c = '"' then ['\\', '"']
  else if c = '\\' then ['\\', '\\']
  else if c = '\n' then ['\\', 'n']
  else if c = '\r' then ['\\', 'r']
  else if c = '\t' then ['\\', 't']
  else if c = '\x08' then ['\\', 'b']
  else if c = '\x0c' then ['\\', 'f']
  else if c.toNat < 0x20 then
    ['\\', 'u', '0', '0', hexDigit (c.toNat / 16), hexDigit (c.toNat % 16)]
  else [c]

def escapeChars (s : List Char) : List Char := s.flatMap escapeChar

def quote (s : String) : String :=
  "\"" ++ String.ofList (escapeChars s.toList) ++ "\""

def scalarText : Json → String
  | bool true => "true"
  | bool false => "false"
  | int n => toString n
  | float x => floatLayout.write x
  | str s => quote s
  | _ => "null"

def keyText : Scalar → String
  | .str s => s
  | k => scalarText k.toJson

mutual

def compact : Json → String
  | arr items => "[" ++ String.intercalate ", " (compactItems items) ++ "]"
  | obj members => "\x7b" ++ String.intercalate ", " (compactMembers members) ++ "\x7d"
  | null => "null"
  | bool b => scalarText (bool b)
  | int n => scalarText (int n)
  | float x => scalarText (float x)
  | str s => scalarText (str s)
  | dict members => "\x7b" ++ String.intercalate ", " (compactEntries members) ++ "\x7d"
  | special _ => "null"
  | set _ => "null"
  | loop => "null"

def compactItems : List Json → List String
  | [] => []
  | x :: xs => compact x :: compactItems xs

def compactMembers : List (String × Json) → List String
  | [] => []
  | (k, v) :: ms => (quote k ++ ": " ++ compact v) :: compactMembers ms

def compactEntries : List (Scalar × Json) → List String
  | [] => []
  | (k, v) :: ms => (quote (keyText k) ++ ": " ++ compact v) :: compactEntries ms

end

def block (opening closing indent : String) (items : List String) : String :=
  if items.isEmpty then opening ++ closing
  else opening ++ "\n" ++ String.intercalate ",\n" (items.map (indent ++ "    " ++ ·)) ++ "\n" ++
    indent ++ closing

mutual

def prettyAt (indent : String) : Json → String
  | arr items => block "[" "]" indent (prettyItems (indent ++ "    ") items)
  | obj members => block "\x7b" "\x7d" indent (prettyMembers (indent ++ "    ") members)
  | null => "null"
  | bool b => scalarText (bool b)
  | int n => scalarText (int n)
  | float x => scalarText (float x)
  | str s => scalarText (str s)
  | dict members => block "\x7b" "\x7d" indent (prettyEntries (indent ++ "    ") members)
  | special _ => "null"
  | set _ => "null"
  | loop => "null"

def prettyItems (indent : String) : List Json → List String
  | [] => []
  | x :: xs => prettyAt indent x :: prettyItems indent xs

def prettyMembers (indent : String) : List (String × Json) → List String
  | [] => []
  | (k, v) :: ms => (quote k ++ ": " ++ prettyAt indent v) :: prettyMembers indent ms

def prettyEntries (indent : String) : List (Scalar × Json) → List String
  | [] => []
  | (k, v) :: ms => (quote (keyText k) ++ ": " ++ prettyAt indent v) :: prettyEntries indent ms

end

def pretty (v : Json) : String := prettyAt "" v

inductive Unwritable where
  | value (kind : String)
  | key (kind : String)
  | loop
  | intTooLong
  deriving DecidableEq, Repr

def intUnwritable? (n : Int) : Option Unwritable :=
  if Text.isOverlong n then some .intTooLong else none

mutual

/-- The first part of a value, in the order of the text, that is not written. -/
def unwritable? : Json → Option Unwritable
  | null => none
  | bool _ => none
  | int n => intUnwritable? n
  | float _ => none
  | str _ => none
  | arr items => unwritableItem? items
  | obj members => unwritableMember? members
  | special s => some (.value s.kindName)
  | set _ => some (.value "set")
  | dict members => unwritableEntry? members
  | loop => some .loop

def unwritableItem? : List Json → Option Unwritable
  | [] => none
  | v :: vs => unwritable? v <|> unwritableItem? vs

def unwritableMember? : List (String × Json) → Option Unwritable
  | [] => none
  | (_, v) :: ms => unwritable? v <|> unwritableMember? ms

def unwritableEntry? : List (Scalar × Json) → Option Unwritable
  | [] => none
  | (k, v) :: ms =>
    match k with
    | .special s => some (.key s.qualifiedKind)
    | .int n => intUnwritable? n <|> (unwritable? v <|> unwritableEntry? ms)
    | _ => unwritable? v <|> unwritableEntry? ms

end

def written (form : Json → String) (v : Json) : Except Unwritable String :=
  match v.unwritable? with
  | some u => .error u
  | none => .ok (form v)

end HydraClient.Json
