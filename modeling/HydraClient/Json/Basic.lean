import HydraClient.Json.Scalar

/-! # JSON values

Objects keep the order of their members, and integers are told apart from floats. Two notions of
equality are in use: identity of the written value, and the looser one in which numbers compare by
value, truth values count as one and zero, and the order of members is ignored.

Four kinds of value come from YAML only, and JSON text has no form for three of them: scalars of
other kinds, sets, and the way back to a value that holds the value itself. The fourth is a mapping
of which some key is no string.
-/
namespace HydraClient

inductive Json where
  | null
  | bool (b : Bool)
  | int (n : Int)
  | float (x : Binary64)
  | str (s : String)
  | arr (items : List Json)
  | obj (members : List (String × Json))
  | special (s : Special)
  | set (members : List Scalar)
  | dict (members : List (Scalar × Json))
  | loop

def Scalar.toJson : Scalar → Json
  | null => .null
  | bool b => .bool b
  | int n => .int n
  | float x => .float x
  | str s => .str s
  | special s => .special s

namespace Json

instance : Inhabited Json := ⟨null⟩

def member? (name : String) (members : List (String × Json)) : Option Json :=
  (members.find? (·.1 == name)).map Prod.snd

def put (members : List (String × Json)) (name : String) (v : Json) : List (String × Json) :=
  if members.any (·.1 == name) then members.map fun m => if m.1 == name then (name, v) else m
  else members ++ [(name, v)]

def overlay (base upper : List (String × Json)) : List (String × Json) :=
  upper.foldl (fun ms m => put ms m.1 m.2) base

abbrev Members := List (Scalar × Json)

def members? : Json → Option Members
  | obj ms => some (ms.map fun m => (.str m.1, m.2))
  | dict ms => some ms
  | _ => none

/-- A mapping is an object if all its keys are strings. -/
def ofMembers (members : Members) : Json :=
  let named := members.mapM fun m =>
    match m.1 with
    | .str s => some (s, m.2)
    | _ => none
  match named with
  | some ms => obj ms
  | none => dict members

def lookup? (name : String) (members : Members) : Option Json :=
  (members.find? (·.1 == .str name)).map Prod.snd

/-- Everything counts as true but null, false, zero and what is empty. -/
def isTruthy : Json → Bool
  | null => false
  | bool b => b
  | int n => n != 0
  | float x => !x.isZero
  | str s => s != ""
  | arr items => !items.isEmpty
  | obj members => !members.isEmpty
  | set members => !members.isEmpty
  | dict members => !members.isEmpty
  | special (.bytes content) => !content.isEmpty
  | special _ => true
  | loop => true

def kindName : Json → String
  | null => "NoneType"
  | bool _ => "bool"
  | int _ => "int"
  | float _ => "float"
  | str _ => "str"
  | arr _ => "list"
  | obj _ => "dict"
  | special s => s.kindName
  | set _ => "set"
  | dict _ => "dict"
  | loop => "list"

def qualifiedKind : Json → String
  | special s => s.qualifiedKind
  | v => v.kindName

/-- The number a value counts as: truth values are one and zero. -/
def quantity? : Json → Option Quantity
  | bool b => some (.whole (if b then 1 else 0))
  | int n => some (.whole n)
  | float x => some (.real x)
  | _ => none

mutual

def matchesValue : Json → Json → Bool
  | null, null => true
  | str s, str t => s == t
  | arr xs, arr ys => matchesItems xs ys
  | obj ms, obj ns => ms.length == ns.length && matchesMembers ms ns
  | special a, special b => a.equals b
  | set xs, set ys => xs.length == ys.length && xs.all fun x => ys.any (·.isSameKey x)
  | dict ms, dict ns => ms.length == ns.length && matchesEntries ms ns
  | bool a, w => matchesQuantity (.whole (if a then 1 else 0)) w
  | int n, w => matchesQuantity (.whole n) w
  | float x, w => matchesQuantity (.real x) w
  | _, _ => false

def matchesItems : List Json → List Json → Bool
  | [], [] => true
  | x :: xs, y :: ys => matchesValue x y && matchesItems xs ys
  | _, _ => false

/-- Every member of the first object has a loosely equal one in the second. -/
def matchesMembers : List (String × Json) → List (String × Json) → Bool
  | [], _ => true
  | (k, v) :: ms, ns =>
    (match member? k ns with
      | some w => matchesValue v w
      | none => false) && matchesMembers ms ns

def matchesEntries : List (Scalar × Json) → List (Scalar × Json) → Bool
  | [], _ => true
  | (k, v) :: ms, ns =>
    (match ns.find? (·.1.isSameKey k) with
      | some e => matchesValue v e.2
      | none => false) && matchesEntries ms ns

def matchesQuantity (q : Quantity) (w : Json) : Bool :=
  match w.quantity? with
  | some r => q.equals r
  | none => false

end

end Json
end HydraClient
