import HydraClient.BaseTypes
import HydraClient.Json.Printer
import HydraClient.Metadata.Declaration
import HydraClient.Script

/-! # Fields of filters

Filters contribute query parameters to the interface of a list operation. Contributions to one name
are united: the tokens in order, and the two flags once any contribution sets them.
-/
namespace HydraClient

structure FilterField where
  name : String
  union : TypeUnion := .empty
  required : Bool := false
  isCollection : Bool := false
  deriving DecidableEq, Repr

namespace FilterField

/-- A collection accepts a single value as well. -/
def typeExpression (f : FilterField) : String :=
  if f.isCollection then f.union.widened else f.union.render

def toProperty (f : FilterField) : Property where
  name := f.name
  union := .parse f.typeExpression
  required := f.required
  isCollection := f.isCollection

end FilterField

abbrev FilterFields := OrderedMap String FilterField

namespace FilterFields

def contribute (fs : FilterFields) (name expression : String) (required : Bool := false)
    (isCollection : Bool := false) : FilterFields :=
  let f := (fs.get? name).getD { name }
  fs.insert name { f with
    union := f.union.addExpression expression
    required := f.required || required
    isCollection := f.isCollection || isCollection }

end FilterFields

structure Derivation where
  fields : FilterFields := .empty
  imports : Imports := .empty

abbrev Deriving := ExceptT Failure (StateM Derivation)

namespace Deriving

open Metadata (FilterParameter)

def contribute (name expression : String) (required : Bool := false)
    (isCollection : Bool := false) : Deriving Unit :=
  modify fun d => { d with fields := d.fields.contribute name expression required isCollection }

def depend (file name : String) : Deriving Unit :=
  modify fun d => if file = "" then d else { d with imports := d.imports.add file name }

def dependAll (i : Imports) : Deriving Unit :=
  i.toList.forM fun (file, names) => names.toList.forM fun n => depend file n

def dependOnType (types : TypeRegistry) (name : String) : Deriving Unit :=
  match types.get? name with
  | some t => if t.isRendered then depend (t.file.getD "") name else pure ()
  | none => pure ()

end Deriving

namespace FilterKey

def head (key : String) : String := String.ofList (key.toList.takeWhile (· != '['))

/-- The part between the first bracket and the next closing one, unless it is empty. -/
def operator? (key : String) : Option String :=
  match key.toList.dropWhile (· != '[') with
  | [] => none
  | _ :: rest =>
    let op := rest.takeWhile (· != ']')
    if op.isEmpty then none else some (String.ofList op)

/-- The property a parameter refers to: the one it names, or else the one in its key. -/
def property (key : String) (p : Metadata.FilterParameter) : String :=
  match p.property with
  | some s => if s = "" then head key else s
  | none => head key

end FilterKey

namespace Filter

open Metadata (FilterParameter)

def primitive (type : String) : String :=
  match type with
  | "int" => "number"
  | "integer" => "number"
  | "float" => "number"
  | "bool" => "boolean"
  | t => t

/-- Whether a schema admits a type, which may stand alone or in a list. -/
def schemaAccepts (schema : OrderedMap String Json) (type : String) : Bool :=
  match (schema.get? "type").getD .null with
  | .arr types => types.any fun t => (Json.str type).matchesValue t
  | t => t.matchesValue (.str type)

section Rules

variable (types : TypeRegistry) (resource : TypeEntry) (filter : Metadata.Filter)

def localProperty (path : String) : Deriving Property :=
  let name := String.ofList (path.toList.takeWhile (· != '.'))
  match resource.properties.get? name with
  | some p => pure p
  | none => throw (.propertyUnexposed name resource.name resource.source path filter.id)

def exposedName (key : String) (p : FilterParameter) : Deriving String := do
  let name := FilterKey.property key p
  let _ ← localProperty resource filter name
  pure name

/-- The expression to search a property by. A relation whose schema admits the declared type is
searched by identifier. -/
def searchExpression (prop : Property) (p : FilterParameter) : Deriving String := do
  if !prop.schema.isEmpty && schemaAccepts prop.schema p.type then
    if ((prop.schema.get? "format").getD .null).matchesValue (.str "iri-reference") then
      let related := prop.related.filter (· != "")
      if let some r := related then
        Deriving.dependOnType types r
      Deriving.depend BaseTypes.apiTypesFile "HydraIri"
      pure ("HydraIri<" ++ related.getD "any" ++ ">")
    else pure prop.union.render
  else pure p.type

def searchField (key : String) (p : FilterParameter) : Deriving Unit := do
  let name := FilterKey.property key p
  let prop ← localProperty resource filter name
  Deriving.dependAll prop.imports
  let expression ← searchExpression types prop p
  Deriving.contribute name (primitive expression) p.required p.isCollection

def search : Deriving Unit :=
  filter.parameters.entries.forM fun (key, p) => searchField types resource filter key p

def namedProperties : Deriving (Option String × List String) := do
  let properties ← filter.parameters.entries.mapM fun (key, p) =>
    exposedName resource filter key p
  pure (filter.parameters.entries.head?.map fun e => FilterKey.head e.1, properties)

def partialRecord (keys : List String) (type : String) : String :=
  "Partial<Record<" ++ Script.literalUnion keys ++ ", " ++ type ++ ">>"

def order : Deriving Unit := do
  let (name?, properties) ← namedProperties resource filter
  if let some name := name? then
    Deriving.depend BaseTypes.enumFile "Order"
    Deriving.contribute name (partialRecord properties "Order")

def operators : Deriving (OrderedMap String (List String)) :=
  filter.parameters.entries.foldlM (fun ops (key, p) => do
    match FilterKey.operator? key with
    | none => pure ops
    | some op =>
      let name ← exposedName resource filter key p
      let held := (ops.get? name).getD []
      pure (ops.insert name (if held.contains op then held else held ++ [op]))) .empty

def date : Deriving Unit := do
  let ops ← operators resource filter
  if !ops.isEmpty then
    Deriving.depend BaseTypes.apiTypesFile "DateTime"
  ops.entries.forM fun (name, names) => Deriving.contribute name (partialRecord names "DateTime")

def booleanField (key : String) (p : FilterParameter) : Deriving Unit := do
  let name ← exposedName resource filter key p
  Deriving.contribute name "boolean" p.required p.isCollection

def boolean : Deriving Unit :=
  filter.parameters.entries.forM fun (key, p) => booleanField resource filter key p

def existence : Deriving Unit := do
  let (name?, properties) ← namedProperties resource filter
  if let some name := name? then
    Deriving.contribute name (partialRecord properties "boolean")

def range : Deriving Unit := do
  let ops ← operators resource filter
  ops.entries.forM fun (name, names) => Deriving.contribute name (partialRecord names "string")

/-- The values that a schema enumerates. Text counts as its characters, bytes as their numbers and a
mapping as its keys. -/
def enumerated (schema : OrderedMap String Json) : Except Failure (List Json) :=
  match (schema.get? "enum").getD .null with
  | .arr vs => .ok vs
  | .str s => .ok (s.toList.map fun c => .str (String.ofList [c]))
  | .obj ms => .ok (ms.map fun m => .str m.1)
  | .dict ms => .ok (ms.map fun m => m.1.toJson)
  | .set keys => .ok (keys.map Scalar.toJson)
  | .special (.bytes content) => .ok (content.map fun b => .int b.toNat)
  | v => if v.isTruthy then .error (.notIterable v.qualifiedKind) else .ok []

def valueUnion (schema : OrderedMap String Json) : Except Failure String := do
  let values ← enumerated schema
  let literals := String.intercalate "|" (← values.mapM fun v => Script.literal v)
  pure (if literals = "" then "string" else literals)

def backedEnumField (key : String) (p : FilterParameter) : Deriving Unit := do
  let prop ← localProperty resource filter (FilterKey.property key p)
  match prop.enumName.filter (· != "") with
  | some e =>
    Deriving.dependOnType types e
    Deriving.contribute key ("null|" ++ e) p.required p.isCollection
  | none =>
    let values ← valueUnion p.schema
    Deriving.contribute key ("null|" ++ values) p.required p.isCollection

/-- A modelled enum is referred to by name; otherwise the values stand in the type. -/
def backedEnum : Deriving Unit :=
  filter.parameters.entries.forM fun (key, p) => backedEnumField types resource filter key p

def derive : Deriving Unit :=
  match filter.kind with
  | .search => search types resource filter
  | .order => order resource filter
  | .date => date resource filter
  | .boolean => boolean resource filter
  | .existence => existence resource filter
  | .range => range resource filter
  | .backedEnum => backedEnum types resource filter

end Rules
end Filter
end HydraClient
