import HydraClient.Draft
import HydraClient.Script

/-! # Payload helpers

For every persistent interface there is a function that replaces relations by references before an
entity is sent: by the identifier of a resource that has one, or by the payload of another
persistent model. Other relations stay as they are.
-/
namespace HydraClient.Payload

structure Converter where
  name : String
  file : String
  deriving DecidableEq, Repr

def iriFunction (typeName : String) : String := "generate" ++ typeName ++ "Iri"

def payloadFunction (typeName : String) : String := "prepare" ++ typeName ++ "Payload"

def converter? (d : Draft) (p : Property) : Option Converter := do
  let related ← p.related.filter (· != "")
  let target ← d.types.get? related
  let file ← target.file.filter (· != "")
  let entry := (target.source.filter (· != "")).bind d.operations.get?
  match entry.filter fun e => target.addressable && e.iriKey.isSome with
  | some e => some ⟨iriFunction target.name, e.file⟩
  | none => if target.persistent then some ⟨payloadFunction target.name, file⟩ else none

def convertLines (p : Property) (c : Converter) : List String :=
  let key := Json.quote p.name
  let field := "entity[" ++ key ++ "]"
  ["    if (fieldsToUse.includes(" ++ key ++ ") && " ++ key ++ " in entity && " ++ field ++
      ") \x7b",
    if p.isCollection then
      "        " ++ field ++ " = " ++ field ++ ".map(item => " ++ c.name ++ "(item));"
    else "        " ++ field ++ " = " ++ c.name ++ "(" ++ field ++ ");",
    "    \x7d"]

/-- The helper of a type and what it imports. Without relations it gives back what it gets. -/
def render (d : Draft) (t : TypeEntry) : String × Imports :=
  let relations := t.properties.values.filterMap fun p => (converter? d p).map fun c => (p, c)
  let n := t.name
  let opening := "export function " ++ payloadFunction n ++ "(entity: Partial<" ++ n ++
    ">, excludedFields?: Array<keyof " ++ n ++ ">, fields?: Array<keyof " ++ n ++
    ">): Partial<" ++ n ++ "> \x7b"
  let selection :=
    if relations.isEmpty then []
    else
      ["    const allFields: Array<keyof " ++ n ++ "> = " ++
          Script.stringArray (relations.map fun r => r.1.name) ++ ";",
        "    let fieldsToUse = (fields || allFields);",
        "    if (excludedFields) \x7b",
        "        fieldsToUse = fieldsToUse.filter(field => !excludedFields.includes(field));",
        "    \x7d",
        "    if (!fieldsToUse.length) \x7b",
        "        return entity;",
        "    \x7d",
        "    entity = \x7b...entity\x7d;"]
  let lines := [opening] ++ selection ++ relations.flatMap (fun r => convertLines r.1 r.2) ++
    ["    return entity;", "\x7d"]
  (String.intercalate "\n" lines,
    relations.foldl (fun i r => i.add r.2.file r.2.name) .empty)

def isShaped (t : TypeEntry) : Bool := t.kind == .interface && t.persistent && t.isRendered

def shapeAll : Drafting Nat := do
  let shaped := (← get).types.toList.filter isShaped
  for t in shaped do
    let (body, imports) := render (← get) t
    Drafting.addFragment (t.file.getD "") { body, priority := SourceFile.payloadPriority, imports }
  pure shaped.length

end HydraClient.Payload
