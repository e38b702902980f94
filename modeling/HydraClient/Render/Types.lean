import HydraClient.Draft
import HydraClient.Json.Printer
import HydraClient.Script
import HydraClient.Text.Words

/-! # Text of types

Aliases, interfaces with their factory functions, and enums. Types of one file are ordered by how
many others of the file they refer to.
-/
namespace HydraClient.Render

def generics (t : TypeEntry) : String :=
  match t.generics with
  | some g => if g = "" then "" else "<" ++ g ++ ">"
  | none => ""

def commentLines (doc : List String) : List String := doc.map ("// " ++ ·)

def propertyLine (p : Property) : String :=
  "    " ++ (if p.readOnly then "readonly " else "") ++ Script.propertyKey p.name ++
    (if p.required then "" else "?") ++ ": " ++ p.union.render ++ ";"

def interfaceLines (t : TypeEntry) : List String :=
  let supers := if t.supers.isEmpty then "" else " extends " ++ String.intercalate ", " t.supers
  commentLines t.doc ++ ["export interface " ++ t.name ++ generics t ++ supers ++ " \x7b"] ++
    (t.properties.values.filter (!·.inherited)).map propertyLine ++ ["\x7d"]

def overlay (base upper : OrderedMap String Property) : OrderedMap String Property :=
  upper.entries.foldl (fun m e => m.insert e.1 e.2) base

/-- The properties a factory sets: those of the ancestors first, each overridden by the nearest
declaration. A type is visited once; `fuel` bounds the depth. Also gives the types visited. -/
def collectProperties (types : TypeRegistry) :
    Nat → List String → TypeEntry → OrderedMap String Property × List String
  | 0, seen, t => (t.properties, t.name :: seen)
  | fuel + 1, seen, t =>
    let (merged, seen) := t.supers.foldl (fun (merged, seen) super =>
      match types.get? super with
      | none => (merged, seen)
      | some parent =>
        if !parent.hasFactory || seen.contains parent.name then (merged, seen)
        else
          let (inherited, seen) := collectProperties types fuel seen parent
          (overlay merged inherited, seen)) (.empty, t.name :: seen)
    (overlay merged t.properties, seen)

/-- Every visit is to a type not seen before. -/
def factoryProperties (types : TypeRegistry) (t : TypeEntry) : OrderedMap String Property :=
  (collectProperties types (types.size + 1) [] t).1

def factoryLine (p : Property) : String :=
  let literal := match p.defaultLiteral with
    | some l => if l = "" then "null" else l
    | none => "null"
  "        " ++ Script.propertyKey p.name ++ ": " ++ literal ++ ","

def factoryLines (types : TypeRegistry) (t : TypeEntry) : List String :=
  let v := Text.lowerFirst t.name
  ["",
    "export function " ++ v ++ "Factory(" ++ v ++ ": Partial<" ++ t.name ++ "> = \x7b\x7d): " ++
      t.name ++ " \x7b",
    "    return \x7b"] ++
  ((factoryProperties types t).values.filter (!·.readOnly)).map factoryLine ++
  ["        ..." ++ v ++ ",", "    \x7d as " ++ t.name ++ ";", "\x7d"]

def memberLine (name : String) (value : Json) : Except Failure String :=
  match value with
  | .null => .ok ("    " ++ name ++ ",")
  | v => (Script.literal v).map fun literal => "    " ++ name ++ " = " ++ literal ++ ","

def enumLines (t : TypeEntry) : Except Failure (List String) := do
  let members ← t.members.entries.mapM fun m => memberLine m.1 m.2
  pure (commentLines t.doc ++ ["export enum " ++ t.name ++ " \x7b"] ++ members ++ ["\x7d"])

def typeLines (types : TypeRegistry) (t : TypeEntry) : Except Failure (List String) :=
  match t.kind with
  | .alias =>
    let aliased := match t.aliased with
      | some a => if a = "" then "any" else a
      | none => "any"
    .ok ["export type " ++ t.name ++ generics t ++ " = " ++ aliased ++ ";"]
  | .interface =>
    .ok (interfaceLines t ++ if t.hasFactory then factoryLines types t else [])
  | .enumeration | .nativeEnum => enumLines t
  | .builtin => .error (.unrenderable t.name t.kind.label)

def typeFragment (types : TypeRegistry) (group : List TypeEntry) : Except Failure Fragment := do
  let ordered := group.mergeSort fun a b => a.siblingCount ≤ b.siblingCount
  let blocks ← ordered.mapM fun t => (typeLines types t).map (String.intercalate "\n")
  pure {
    body := String.intercalate "\n\n" blocks
    priority := SourceFile.typePriority
    imports := ordered.foldl (fun i t => i.merge t.imports) .empty }

def composeTypes : Drafting Nat := do
  let types := (← get).types
  let groups := types.byFile
  for (file, group) in groups.entries do
    Drafting.addFragment file (← typeFragment types group)
  pure groups.size

end HydraClient.Render
