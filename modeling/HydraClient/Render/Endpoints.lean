import HydraClient.BaseTypes
import HydraClient.Payload

/-! # Text of endpoints

Every binding becomes an object of helper calls, and a function that makes the same object around
default settings. The first binding that can build identifiers also brings a function for them.
-/
namespace HydraClient.Render

def genericParams (c : Call) : List String :=
  match c.genericParams with
  | some gs => gs
  | none =>
    let orElse (s : Option String) (t : String) : String := (s.filter (· != "")).getD t
    let input := orElse c.input "any"
    let output := orElse c.output input
    let params := if c.pathParams.isEmpty then [] else [Script.literalUnion c.pathParams]
    match c.helper with
    | "list" => [input, orElse c.listParams ("ListParams<" ++ input ++ ">")] ++ params
    | "create" | "update" | "replace" => [input, output] ++ params
    | "read" => input :: params
    | _ => [input]

def takesMethod (helper : String) : Bool := helper == "download" || helper == "downloadAsString"

def helperCall (c : Call) : String × List String :=
  let path := Json.quote c.path
  let params := Script.stringArray c.pathParams
  if c.isMultipart then ("multipart", [Json.quote (Text.upper c.method), path, params])
  else if takesMethod c.helper then (c.helper, [path, Json.quote c.method, params])
  else (c.helper, [path, params])

def securityLines (indent : String) (b : Binding) (c : Call) : List String :=
  let line (mark : String) (s : Option String) : List String :=
    match s.filter (· != "") with
    | some s => [indent ++ "// @" ++ mark ++ ": " ++ s]
    | none => []
  line "security" c.security ++ line "securityPostDenormalize" b.securityPostDenormalize

def callLine (indent name : String) (c : Call) (further : List String) : String :=
  let (helper, args) := helperCall c
  indent ++ Script.propertyKey name ++ ": " ++ helper ++ "<" ++
    String.intercalate ", " (genericParams c) ++ ">(" ++
    String.intercalate ", " (args ++ further) ++ "),"

/-- The members of a binding object: calls first, then child endpoints. -/
def memberLines (indent : String) (b : Binding) (further : List String) : List String :=
  (b.calls.entries.flatMap fun (name, c) =>
    securityLines indent b c ++ [callLine indent name c further]) ++
  b.children.entries.map fun (key, child) =>
    indent ++ Script.propertyKey key ++ ": " ++ child.symbol ++ ","

def headLines (b : Binding) : List String :=
  match b.security.filter (· != "") with
  | some s => ["// " ++ s]
  | none => []

def objectLines (b : Binding) : List String :=
  headLines b ++ ["export const " ++ b.symbol ++ " = \x7b"] ++ memberLines "    " b [] ++ ["\x7d"]

def factoryObjectLines (b : Binding) : List String :=
  headLines b ++
    ["export function " ++ b.symbol ++ "EndpointFactory(defaultConfig?: RequestConfig) \x7b",
      "    return \x7b"] ++
    memberLines "        " b ["defaultConfig"] ++ ["    \x7d", "\x7d"]

def iriLines (b : Binding) (c : Call) : List String :=
  let n := b.name
  ["",
    "export function " ++ Payload.iriFunction n ++ "(id: Partial<" ++ n ++
      ">|string|number|null): HydraIri<" ++ n ++ "> \x7b",
    "    return generateIri<" ++ n ++ ">(id, " ++ Json.quote c.path ++ ") as HydraIri<" ++ n ++
      ">;",
    "\x7d"]

def iriCallAt (e : EndpointEntry) (key : String) (b : Binding) : Option Call :=
  if e.iriKey = some key then b.iriCall else none

/-- What the text of an entry takes from other files, beyond what was recorded for it. -/
def endpointImports (e : EndpointEntry) (bindings : List (String × Binding)) : Imports :=
  let helpers := bindings.flatMap fun (_, b) => b.calls.values.map fun c => (helperCall c).1
  let i := helpers.foldl (fun i h => i.add BaseTypes.apiMethodsFile h) e.imports
  let i := bindings.foldl (fun i (key, b) =>
    match iriCallAt e key b with
    | some _ =>
      ((i.add BaseTypes.apiTypesFile "HydraIri").add BaseTypes.apiTypesFile "generateIri").add
        ("interfaces/" ++ b.name) b.name
    | none => i) i
  i.add BaseTypes.apiMethodsFile "RequestConfig"

/-- The text of an entry and its imports. An entry without calls has none. -/
def endpoint? (e : EndpointEntry) : Option (String × Imports) :=
  let bindings := e.bindings.entries.filter fun b => b.2.isExposed
  if bindings.isEmpty then none
  else
    let objects := bindings.flatMap fun (key, b) =>
      objectLines b ++
        match iriCallAt e key b with
        | some c => iriLines b c
        | none => []
    let lines := objects ++ [""] ++ bindings.flatMap fun b => factoryObjectLines b.2
    some (String.intercalate "\n" lines, endpointImports e bindings)

def composeEndpoints : Drafting Nat := do
  let mut count := 0
  for e in (← get).operations.values do
    if let some (body, imports) := endpoint? e then
      Drafting.addFragment e.file { body, priority := SourceFile.endpointPriority, imports }
      count := count + 1
  pure count

end HydraClient.Render
