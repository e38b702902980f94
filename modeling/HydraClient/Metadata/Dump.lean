import HydraClient.Metadata.Config
import HydraClient.Metadata.Declaration

/-! # Declarations as JSON

The full form of a declaration: every member is present, defaults and derived members included.
-/
namespace HydraClient.Metadata

def jsonOrNull {α : Type} (f : α → Json) : Option α → Json
  | some a => f a
  | none => .null

def optionalString : Option String → Json := jsonOrNull .str

namespace FieldType

def toJson : FieldType → Json
  | ⟨builtin, nullable, className, collection, keyType, value⟩ =>
    .obj [("builtin", .str builtin), ("nullable", .bool nullable),
      ("class", optionalString className), ("collection", .bool collection),
      ("key_type", optionalString keyType),
      ("value", match value with
        | some v => v.toJson
        | none => .null)]

end FieldType

def Field.toJson (f : Field) : Json :=
  .obj [("name", .str f.name), ("types", .arr (f.types.map FieldType.toJson)),
    ("readable", .bool f.readable), ("writable", .bool f.writable),
    ("required", .bool f.required), ("default", f.default),
    ("default_case", optionalString f.defaultCase), ("declared_by", optionalString f.declaredBy),
    ("schema", .obj f.schema.entries)]

def UriVariable.toJson (u : UriVariable) : Json :=
  .obj [("parameter", .str u.parameter), ("from_class", optionalString u.fromClass),
    ("from_property", optionalString u.fromProperty),
    ("to_property", optionalString u.toProperty)]

def HelperOverride.toJson (h : HelperOverride) : Json :=
  .obj [("kind", .str h.kind), ("generic_params", jsonOrNull Config.strings h.genericParams)]

def PagingSwitches.toMembers (p : PagingSwitches) : List (String × Json) :=
  [("pagination_enabled", jsonOrNull .bool p.enabled),
    ("pagination_client_enabled", jsonOrNull .bool p.clientEnabled),
    ("pagination_client_items_per_page", jsonOrNull .bool p.clientItemsPerPage),
    ("pagination_client_partial", jsonOrNull .bool p.clientPartial)]

def Operation.toJson (o : Operation) : Json :=
  .obj (o.paging.toMembers ++
    [("type", optionalString o.type), ("method", .str o.method), ("name", optionalString o.name),
      ("uri_template", optionalString o.uriTemplate),
      ("uri_variables", Config.strings o.uriVariables), ("exposed", .bool o.exposed),
      ("input", optionalString o.input), ("output", optionalString o.output),
      ("input_formats", .obj (o.inputFormats.entries.map fun e => (e.1, Config.strings e.2))),
      ("filters", Config.strings o.filters), ("security", optionalString o.security),
      ("request_method", jsonOrNull HelperOverride.toJson o.requestMethod)])

def Exposure.toJson (e : Exposure) : Json :=
  .obj (e.paging.toMembers ++
    [("short_name", .str e.shortName), ("uri_template", optionalString e.uriTemplate),
      ("uri_variables", .arr (e.uriVariables.map UriVariable.toJson)),
      ("operations", .arr (e.operations.map Operation.toJson)),
      ("security", optionalString e.security),
      ("security_post_denormalize", optionalString e.securityPostDenormalize)])

def ClassDecl.toJson (c : ClassDecl) : Json :=
  .obj [("class", .str c.className), ("parent", optionalString c.parent),
    ("persistent", .bool c.persistent), ("source_file", optionalString c.sourceFile),
    ("fields", .arr (c.fields.map Field.toJson)),
    ("api_resources", .arr (c.exposures.map Exposure.toJson)),
    ("is_addressable", .bool c.isAddressable)]

def EnumCase.toJson (c : EnumCase) : Json := .obj [("name", .str c.name), ("value", c.value)]

def EnumDecl.toJson (e : EnumDecl) : Json :=
  .obj [("class", .str e.className), ("backed", .bool e.backed),
    ("cases", .arr (e.cases.map EnumCase.toJson)), ("source_file", optionalString e.sourceFile)]

def FilterParameter.toJson (p : FilterParameter) : Json :=
  .obj [("property", optionalString p.property), ("type", .str p.type),
    ("required", .bool p.required), ("is_collection", .bool p.isCollection),
    ("schema", .obj p.schema.entries)]

def Filter.toJson (f : Filter) : Json :=
  .obj [("id", .str f.id), ("kind", .str f.kind.word),
    ("parameters", .obj (f.parameters.entries.map fun e => (e.1, e.2.toJson)))]

def Route.toJson (r : Route) : Json :=
  .obj [("name", .str r.name), ("path", .str r.path),
    ("requirements", .obj (r.requirements.entries.map fun e => (e.1, .str e.2))),
    ("defaults", .obj r.defaults.entries)]

end HydraClient.Metadata
