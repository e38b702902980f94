import HydraClient.Metadata.Config
import HydraClient.Metadata.Declaration
import HydraClient.Text.LetterCase

/-! # Reading declarations

One reader per kind of declaration, over the members of its object.
-/
namespace HydraClient.Metadata

open Read

namespace FieldType

def labels : List Label :=
  ["builtin", "nullable", ⟨"class", some "class_name"⟩, "collection", "key_type", "value"]

/-- Element types may nest; `depth` bounds how far. -/
def readWithin : Nat → Json → Checked FieldType
  | 0, _ => .fail .recordExpected
  | _ + 1, .loop => .fail .endless
  | depth + 1, v => record (fun ms =>
      FieldType.mk
        <$> member ms "builtin" nonempty
        <*> memberOr ms "nullable" false truth
        <*> memberOr ms ⟨"class", some "class_name"⟩ none (orNull string)
        <*> memberOr ms "collection" false truth
        <*> memberOr ms "key_type" none (orNull string)
        <*> memberOr ms "value" none (orNull (readWithin depth))
        <* closed ms labels) v

mutual

def depthOf : Json → Nat
  | .arr items => depthOfItems items + 1
  | .obj members => depthOfMembers members + 1
  | .dict members => depthOfEntries members + 1
  | _ => 0

def depthOfItems : List Json → Nat
  | [] => 0
  | v :: vs => max (depthOf v) (depthOfItems vs)

def depthOfMembers : List (String × Json) → Nat
  | [] => 0
  | (_, v) :: ms => max (depthOf v) (depthOfMembers ms)

def depthOfEntries : List (Scalar × Json) → Nat
  | [] => 0
  | (_, v) :: ms => max (depthOf v) (depthOfEntries ms)

end

def read (v : Json) : Checked FieldType := readWithin (depthOf v + 1) v

end FieldType

namespace Field

def labels : List Label :=
  ["name", "types", "readable", "writable", "required", "default", "default_case", "declared_by",
    ⟨"schema", some "json_schema"⟩]

def ofMembers (ms : Json.Members) : Checked Field :=
  Field.mk
    <$> member ms "name" nonempty
    <*> memberOr ms "types" [] (list FieldType.read)
    <*> memberOr ms "readable" true truth
    <*> memberOr ms "writable" true truth
    <*> memberOr ms "required" false truth
    <*> memberOr ms "default" .null anything
    <*> memberOr ms "default_case" none (orNull string)
    <*> memberOr ms "declared_by" none (orNull string)
    <*> memberOr ms ⟨"schema", some "json_schema"⟩ .empty (mapping anything)
    <* closed ms labels

def read : Json → Checked Field := record ofMembers

end Field

namespace UriVariable

def labels : List Label := ["parameter", "from_class", "from_property", "to_property"]

def ofMembers (ms : Json.Members) : Checked UriVariable :=
  UriVariable.mk
    <$> member ms "parameter" nonempty
    <*> memberOr ms "from_class" none (orNull string)
    <*> memberOr ms "from_property" none (orNull string)
    <*> memberOr ms "to_property" none (orNull string)
    <* closed ms labels

def read : Json → Checked UriVariable := record ofMembers

end UriVariable

namespace HelperOverride

def labels : List Label := ["kind", "generic_params"]

def ofMembers (ms : Json.Members) : Checked HelperOverride :=
  HelperOverride.mk
    <$> member ms "kind" nonempty
    <*> memberOr ms "generic_params" none (orNull (list string))
    <* closed ms labels

def read : Json → Checked HelperOverride := record ofMembers

end HelperOverride

namespace PagingSwitches

def labels : List Label :=
  ["pagination_enabled", "pagination_client_enabled", "pagination_client_items_per_page",
    "pagination_client_partial"]

/-- The switches stand among the members of their owner, which refuses unknown ones. -/
def ofMembers (ms : Json.Members) : Checked PagingSwitches :=
  PagingSwitches.mk
    <$> memberOr ms "pagination_enabled" none (orNull truth)
    <*> memberOr ms "pagination_client_enabled" none (orNull truth)
    <*> memberOr ms "pagination_client_items_per_page" none (orNull truth)
    <*> memberOr ms "pagination_client_partial" none (orNull truth)

def read : Json → Checked PagingSwitches := record fun ms => ofMembers ms <* closed ms labels

end PagingSwitches

namespace Operation

def labels : List Label :=
  PagingSwitches.labels ++
    (["type", "method", "name", "uri_template", "uri_variables", "exposed", "input", "output",
      "input_formats", "filters", "security", "request_method"] : List Label)

def ofMembers (ms : Json.Members) : Checked Operation :=
  Operation.mk
    <$> PagingSwitches.ofMembers ms
    <*> memberOr ms "type" none (orNull string)
    <*> memberOr ms "method" "GET" (fun v => (string v).map Text.upper)
    <*> memberOr ms "name" none (orNull string)
    <*> memberOr ms "uri_template" none (orNull string)
    <*> memberOr ms "uri_variables" [] (list string)
    <*> memberOr ms "exposed" true truth
    <*> memberOr ms "input" none (orNull string)
    <*> memberOr ms "output" none (orNull string)
    <*> memberOr ms "input_formats" .empty (mapping (list string))
    <*> memberOr ms "filters" [] (list string)
    <*> memberOr ms "security" none (orNull string)
    <*> memberOr ms "request_method" none (orNull HelperOverride.read)
    <* closed ms labels

def read : Json → Checked Operation := record ofMembers

end Operation

namespace Exposure

def labels : List Label :=
  PagingSwitches.labels ++
    (["short_name", "uri_template", "uri_variables", "operations", "security",
      "security_post_denormalize"] : List Label)

def ofMembers (ms : Json.Members) : Checked Exposure :=
  Exposure.mk
    <$> PagingSwitches.ofMembers ms
    <*> member ms "short_name" nonempty
    <*> memberOr ms "uri_template" none (orNull string)
    <*> memberOr ms "uri_variables" [] (list UriVariable.read)
    <*> memberOr ms "operations" [] (list Operation.read)
    <*> memberOr ms "security" none (orNull string)
    <*> memberOr ms "security_post_denormalize" none (orNull string)
    <* closed ms labels

def read : Json → Checked Exposure := record ofMembers

end Exposure

namespace ClassDecl

def labels : List Label :=
  [⟨"class", some "class_name"⟩, "parent", "persistent", "source_file", "fields", "api_resources"]

def repeated? (seen : List String) : List String → Option String
  | [] => none
  | n :: rest => if seen.contains n then some n else repeated? (n :: seen) rest

def distinctFields (c : ClassDecl) : Checked ClassDecl :=
  match repeated? [] (c.fields.map (·.name)) with
  | some f => .fail (.refused (.fieldTwice c.className f))
  | none => .valid c

def ofMembers (ms : Json.Members) : Checked ClassDecl :=
  (ClassDecl.mk
    <$> member ms ⟨"class", some "class_name"⟩ nonempty
    <*> memberOr ms "parent" none (orNull string)
    <*> memberOr ms "persistent" false truth
    <*> memberOr ms "source_file" none (orNull string)
    <*> memberOr ms "fields" [] (list Field.read)
    <*> memberOr ms "api_resources" [] (list Exposure.read)
    <* closed ms labels).andThen distinctFields

def read : Json → Checked ClassDecl := record ofMembers

end ClassDecl

namespace EnumCase

def labels : List Label := ["name", "value"]

def ofMembers (ms : Json.Members) : Checked EnumCase :=
  EnumCase.mk
    <$> member ms "name" nonempty
    <*> memberOr ms "value" .null anything
    <* closed ms labels

def read : Json → Checked EnumCase := record ofMembers

end EnumCase

namespace EnumDecl

def labels : List Label := [⟨"class", some "class_name"⟩, "backed", "cases", "source_file"]

def ofMembers (ms : Json.Members) : Checked EnumDecl :=
  EnumDecl.mk
    <$> member ms ⟨"class", some "class_name"⟩ nonempty
    <*> memberOr ms "backed" false truth
    <*> memberOr ms "cases" [] (list EnumCase.read)
    <*> memberOr ms "source_file" none (orNull string)
    <* closed ms labels

def read : Json → Checked EnumDecl := record ofMembers

end EnumDecl

namespace FilterKind

def read (v : Json) : Checked FilterKind :=
  match string v with
  | .valid s =>
    match ofWord? s with
    | some k => .valid k
    | none => .fail .choiceExpected
  | .invalid _ => .fail .choiceExpected

end FilterKind

namespace FilterParameter

def labels : List Label :=
  ["property", "type", "required", "is_collection", ⟨"schema", some "json_schema"⟩]

def ofMembers (ms : Json.Members) : Checked FilterParameter :=
  FilterParameter.mk
    <$> memberOr ms "property" none (orNull string)
    <*> memberOr ms "type" "string" string
    <*> memberOr ms "required" false truth
    <*> memberOr ms "is_collection" false truth
    <*> memberOr ms ⟨"schema", some "json_schema"⟩ .empty (mapping anything)
    <* closed ms labels

def read : Json → Checked FilterParameter := record ofMembers

end FilterParameter

namespace Filter

def labels : List Label := ["id", "kind", "parameters"]

def ofMembers (ms : Json.Members) : Checked Filter :=
  Filter.mk
    <$> member ms "id" nonempty
    <*> member ms "kind" FilterKind.read
    <*> memberOr ms "parameters" .empty (mapping FilterParameter.read)
    <* closed ms labels

def read : Json → Checked Filter := record ofMembers

end Filter

namespace Route

def labels : List Label := ["name", "path", "requirements", "defaults"]

def ofMembers (ms : Json.Members) : Checked Route :=
  Route.mk
    <$> member ms "name" nonempty
    <*> member ms "path" nonempty
    <*> memberOr ms "requirements" .empty (mapping string)
    <*> memberOr ms "defaults" .empty (mapping anything)
    <* closed ms labels

def read : Json → Checked Route := record ofMembers

end Route
end HydraClient.Metadata
