import HydraClient.Disk
import HydraClient.Draft
import HydraClient.Metadata.Config
import HydraClient.Script

/-! # Base types

The types that every generated tree shares: the builtins, the Hydra envelopes and two enums. The
runtime settings and the helper that builds identifiers stand beside them.
-/
namespace HydraClient.BaseTypes

open Metadata (Config)

def apiTypesFile : String := "interfaces/ApiTypes"

def enumFile : String := "interfaces/Enum"

def apiMethodsFile : String := "ApiMethods"

/-- What the runtime helper says where the origin of the API belongs. -/
def originPlaceholder : String := "'__API_BASE_URL__'"

def builtinNames : List String :=
  ["string", "number", "boolean", "null", "Array<T>", "object", "any"]

def builtin (name : String) : TypeEntry where
  name := name
  kind := .builtin
  source := some ("@builtin/" ++ name)

def textAlias (name : String) (generics : Option String) : TypeEntry where
  name := name
  kind := .alias
  file := some apiTypesFile
  source := some ("@base/" ++ name)
  generics := generics
  aliased := some "string"

def property (name expression : String) (required : Bool := false) (readOnly : Bool := false) :
    Property where
  name := name
  union := .parse expression
  required := required
  readOnly := readOnly

def interface (name : String) (properties : List Property) (generics : Option String := none)
    (siblings : List String := []) : TypeEntry :=
  let bare : TypeEntry := {
    name
    kind := .interface
    file := some apiTypesFile
    source := some ("@base/" ++ name)
    generics }
  siblings.foldl (fun t s => t.addImport (some apiTypesFile) s)
    (properties.foldl TypeEntry.addProperty bare)

def textEnum (name : String) (members : List (String × String)) : TypeEntry where
  name := name
  kind := .enumeration
  file := some enumFile
  source := some ("@base/" ++ name)
  members := .ofList (members.map fun m => (m.1, .str m.2))

/-- The interfaces around resources. Hydra members may carry a common start. -/
def envelopes (hydra : String) : List TypeEntry := [
  interface "HydraItem"
    [property "@id" "HydraIri<T>" false true, property "@type" "string" false true]
    (some "T = any") ["HydraIri"],
  interface "HydraView"
    [property "@type" "string", property "@id" "HydraIri<any>",
      property (hydra ++ "first") "HydraIri<any>", property (hydra ++ "last") "HydraIri<any>",
      property (hydra ++ "next") "HydraIri<any>"]
    none ["HydraIri"],
  interface "HydraCollection"
    [property "@id" "HydraIri<T>" true, property "@type" "string" true,
      property "@context" "string" true, property (hydra ++ "totalItems") "number" true,
      property (hydra ++ "member") "Array<T>" true, property (hydra ++ "view") "HydraView"]
    (some "T extends HydraItem") ["HydraIri", "HydraItem", "HydraView"],
  interface "HydraSearchMapping"
    [property "@type" "string", property "variable" "string", property "property" "string",
      property "required" "boolean"],
  interface "HydraSearch"
    [property "@type" "string", property (hydra ++ "template") "string",
      property (hydra ++ "variableRepresentation") "string",
      property (hydra ++ "mapping") "Array<HydraSearchMapping>"]
    none ["HydraSearchMapping"],
  interface "ListParams" [] (some "T extends HydraItem") ["HydraItem"]]

def all (hydra : String) : List TypeEntry :=
  builtinNames.map builtin ++
    [textAlias "DateTime" none, textAlias "DateOnly" none,
      textAlias "HydraIri" (some "T extends HydraItem")] ++
    envelopes hydra ++
    [textEnum "BooleanEnum" [("True", "true"), ("False", "false")],
      textEnum "Order" [("Asc", "asc"), ("Desc", "desc")]]

def runtimeSettings (c : Config) : Json :=
  let p := c.paging
  .obj [
    ("hydra_prefix", .str c.hydraStart),
    ("pagination", .obj [("enabled", .bool p.enabled), ("clientEnabled", .bool p.clientEnabled),
      ("clientPartialEnabled", .bool p.clientPartial), ("pageParameter", .str p.pageParameter)]),
    ("itemsPerPage", .obj [("enabled", .bool p.clientItemsPerPage),
      ("itemsPerPageParameter", .str p.itemsPerPageParameter),
      ("maximumItemsPerPage", (p.maximumItemsPerPage.map Json.int).getD .null),
      ("default", .int p.itemsPerPage)]),
    ("paginationClient", .obj [("enabled", .bool p.clientEnabled),
      ("parameter", .str p.enabledParameter)]),
    ("partial", .obj [("enabled", .bool p.clientPartial), ("parameter", .str p.partialParameter)]),
    ("order", .obj [("parameter", .str c.order.parameter),
      ("default", .obj (c.order.default.entries.map fun e => (e.1, .str e.2)))])]

def iriFunction : String := String.intercalate "\n" [
  "export function generateIri<T extends HydraItem>(item: T|string|number|null, " ++
    "uriTemplate: string): null|HydraIri<T> \x7b",
  "    if (item === null) \x7b",
  "        return null;",
  "    \x7d",
  "",
  "    if (typeof item === \"object\" && item[\"@id\"] && " ++
    "typeof item[\"@id\"] === \"string\") \x7b",
  "        return item[\"@id\"] as HydraIri<T>;",
  "    \x7d",
  "",
  "    if (typeof item === \"string\" || typeof item === \"number\") \x7b",
  "        if (uriTemplate.includes(\"\x7bid\x7d\")) \x7b",
  "            return uriTemplate.replace(\"\x7bid\x7d\", " ++
    "encodeURIComponent(item.toString())) as HydraIri<T>;",
  "        \x7d",
  "",
  "        return uriTemplate + \"/\" + encodeURIComponent(item.toString());",
  "    \x7d",
  "",
  "    return null;",
  "\x7d"]

def helper? (c : Config) (disk : Disk) : Except Failure (Option String) :=
  match c.apiMethodsSource with
  | none => .ok none
  | some source =>
    if source = "" then .ok none
    else
      let path := FilePath.ofText source
      match disk.readText path with
      | .error (.undecodable _) => .error .undecodable
      | .error .unnameable => .error .unnameable
      | .error f => .error (.helperUnreadable path.text f.message)
      | .ok text =>
        match c.apiBaseUrl with
        | some origin =>
          if origin = "" then .ok (some text)
          else .ok (some (String.ofList (Text.replaceAll originPlaceholder.toList
            (Json.quote origin).toList text.toList)))
        | none => .ok (some text)

def seed (c : Config) (disk : Disk) : Drafting Unit := do
  for t in all c.hydraStart do
    Drafting.register t
  let settings ← Script.block (runtimeSettings c)
  Drafting.addFragment apiTypesFile
    { body := "export const apiPlatformConfig = " ++ settings ++ ";" }
  Drafting.addFragment apiTypesFile { body := iriFunction }
  if let some text ← helper? c disk then
    Drafting.addFragment apiMethodsFile { body := text }

end HydraClient.BaseTypes
