import HydraClient.Moment
import HydraClient.Number.Quantity

/-! # Scalars

The values that hold no others. Days, moments and bytes come from YAML only: JSON text has no form
for them. Scalars are the keys of mappings. Numbers and truth values that count as the same number
are the same key.
-/
namespace HydraClient

/-- A scalar without a form in JSON text. -/
inductive Special where
  | date (d : Date)
  | moment (m : Moment)
  | bytes (content : List UInt8)
  deriving DecidableEq, Repr

namespace Special

def kindName : Special → String
  | date _ => "date"
  | moment _ => "datetime"
  | bytes _ => "bytes"

/-- The word for the kind together with the family of kinds that it belongs to. -/
def qualifiedKind : Special → String
  | date _ => "datetime.date"
  | moment _ => "datetime.datetime"
  | bytes _ => "bytes"

def equals : Special → Special → Bool
  | date a, date b => a == b
  | moment a, moment b => a.equals b
  | bytes a, bytes b => a == b
  | _, _ => false

end Special

inductive Scalar where
  | null
  | bool (b : Bool)
  | int (n : Int)
  | float (x : Binary64)
  | str (s : String)
  | special (s : Special)
  deriving DecidableEq, Repr

namespace Scalar

def quantity? : Scalar → Option Quantity
  | bool b => some (.whole (if b then 1 else 0))
  | int n => some (.whole n)
  | float x => some (.real x)
  | _ => none

/-- Whether two scalars are one key. What is not a number is the same key everywhere. -/
def isSameKey : Scalar → Scalar → Bool
  | null, null => true
  | str s, str t => s == t
  | special a, special b => a.equals b
  | float .nan, float .nan => true
  | a, b =>
    match a.quantity?, b.quantity? with
    | some p, some q => p.equals q
    | _, _ => false

/-- Puts a member: a key that is there already keeps its first form and its place. -/
def put {α : Type} (members : List (Scalar × α)) (key : Scalar) (v : α) : List (Scalar × α) :=
  if members.any (·.1.isSameKey key) then
    members.map fun m => if m.1.isSameKey key then (m.1, v) else m
  else members ++ [(key, v)]

end Scalar
end HydraClient
