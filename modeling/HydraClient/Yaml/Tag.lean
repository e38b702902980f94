import HydraClient.Yaml.Moment
import HydraClient.Yaml.Text

/-! # Tags

A tag says what kind of value a node stands for. A plain scalar without a tag has the tag of the
first kind that its text fits. A line feed at the end of the text is overlooked in this.
-/
namespace HydraClient.Yaml

inductive Tag where
  | null
  | bool
  | int
  | float
  | binary
  | timestamp
  | str
  | seq
  | map
  | set
  | omap
  | pairs
  /-- The key that brings in the members of other mappings. -/
  | merge
  /-- The key whose value stands for the whole mapping where a scalar is wanted. -/
  | value
  /-- A tag without a kind of value. -/
  | unknown (name : String)
  deriving DecidableEq, Repr

namespace Tag

def common : String := "tag:yaml.org,2002:"

def ofName (name : String) : Tag :=
  let known : List (String × Tag) :=
    [("null", null), ("bool", bool), ("int", int), ("float", float), ("binary", binary),
      ("timestamp", timestamp), ("str", str), ("seq", seq), ("map", map), ("set", set),
      ("omap", omap), ("pairs", pairs), ("merge", merge), ("value", value)]
  ((known.find? fun t => common ++ t.1 == name).map Prod.snd).getD (unknown name)

def handles : List (String × String) := [("!", "!"), ("!!", common)]

def isTruthWord (s : String) : Bool :=
  ["yes", "Yes", "YES", "no", "No", "NO", "true", "True", "TRUE", "false", "False", "FALSE",
    "on", "On", "ON", "off", "Off", "OFF"].contains s

def isNullWord (s : String) : Bool := ["", "~", "null", "Null", "NULL"].contains s

def isDigitOrBar (c : Char) : Bool := c.isDigit || c == '_'

def isDigits (s : List Char) : Bool := s.head?.any Char.isDigit && s.all isDigitOrBar

def unsigned : List Char → List Char
  | '+' :: rest => rest
  | '-' :: rest => rest
  | s => s

/-- A place of a number in sixties: one or two digits below sixty. -/
def isPlace : List Char → Bool
  | [a] => a.isDigit
  | [a, b] => '0' ≤ a && a ≤ '5' && b.isDigit
  | _ => false

/-- Two places at least, the first of any length. -/
def isSixties (s : List Char) : Bool :=
  match s.splitOn ':' with
  | first :: next :: more => isDigits first && (next :: more).all isPlace
  | _ => false

def isInt (s : List Char) : Bool :=
  let s := unsigned s
  match s with
  | '0' :: 'b' :: ds => !ds.isEmpty && ds.all fun c => c == '0' || c == '1' || c == '_'
  | '0' :: 'x' :: ds => !ds.isEmpty && ds.all fun c => (digitOf? c).isSome || c == '_'
  | '0' :: ds => ds.all fun c => ('0' ≤ c && c ≤ '7') || c == '_'
  | _ => isDigits s || isSixties s

def isExponent : List Char → Bool
  | [] => true
  | e :: sign :: ds =>
    (e == 'e' || e == 'E') && (sign == '+' || sign == '-') && !ds.isEmpty && ds.all Char.isDigit
  | _ => false

/-- Digits with a point among them. No sign may stand before a leading point. -/
def isDecimal (s : List Char) : Bool :=
  let body := unsigned s
  let whole := body.takeWhile isDigitOrBar
  match body.drop whole.length with
  | '.' :: rest =>
    let fraction := rest.takeWhile isDigitOrBar
    isExponent (rest.drop fraction.length) &&
      if whole.isEmpty then body.length == s.length && fraction.head?.any Char.isDigit
      else whole.head?.any Char.isDigit
  | _ => false

def isSixtiesDecimal (s : List Char) : Bool :=
  let whole := s.takeWhile (· != '.')
  match s.drop whole.length with
  | '.' :: fraction => isSixties whole && fraction.all isDigitOrBar
  | _ => false

def isFloat (s : List Char) : Bool :=
  isDecimal s || isSixtiesDecimal (unsigned s) ||
    [".inf", ".Inf", ".INF"].contains (String.ofList (unsigned s)) ||
    [".nan", ".NaN", ".NAN"].contains (String.ofList s)

def ofPlain (s : String) : Tag :=
  let cs := s.toList
  let cs := if 1 < cs.length && cs.getLast? == some '\n' then cs.dropLast else cs
  let word := String.ofList cs
  if isTruthWord word then bool
  else if isFloat cs then float
  else if isInt cs then int
  else if word = "<<" then merge
  else if isNullWord word then null
  else if (WrittenMoment.read? cs).any (·.isPlain) then timestamp
  else if word = "=" then value
  else if word = "!" || word = "&" || word = "*" then ofName (common ++ "yaml")
  else str

end Tag
end HydraClient.Yaml
