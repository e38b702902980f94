import HydraClient.ClassName
import HydraClient.Metadata.Origin
import HydraClient.Metadata.Reader

/-! # Configuration

The settings of a run, in their normal form: the path prefix does not end in a slash, namespaces
have no outer backslashes, the API address is reduced to its origin, and the page size does not
exceed the largest one.
-/
namespace HydraClient.Metadata

open Read

structure Paging where
  enabled : Bool := true
  clientEnabled : Bool := false
  clientItemsPerPage : Bool := false
  clientPartial : Bool := false
  pageParameter : String := "page"
  itemsPerPageParameter : String := "itemsPerPage"
  enabledParameter : String := "pagination"
  partialParameter : String := "partial"
  itemsPerPage : Int := 30
  maximumItemsPerPage : Option Int := none
  deriving DecidableEq, Repr

structure OrderSettings where
  parameter : String := "order"
  default : OrderedMap String String := .empty
  deriving DecidableEq, Repr

structure Config where
  outputDir : String := "assets/api"
  commandName : String := "apigen-ts"
  apiPrefix : String := ""
  namespaces : List String := ["App\\Entity"]
  hydraMembers : Bool := true
  paging : Paging := {}
  order : OrderSettings := {}
  datetimeClasses : List String := ["DateTimeInterface", "DateTime", "DateTimeImmutable"]
  identifierClasses : List String :=
    ["Symfony\\Component\\Uid\\Uuid", "Symfony\\Component\\Uid\\Ulid",
      "Symfony\\Component\\Uid\\AbstractUid"]
  passthroughClasses : List String :=
    ["Symfony\\Component\\HttpFoundation\\File\\File",
      "Symfony\\Component\\HttpFoundation\\File\\UploadedFile"]
  routesEnabled : Bool := true
  defaultLocale : String := "en"
  reservedRouteStarts : List String := ["_", "api_"]
  apiMethodsSource : Option String := none
  apiBaseUrl : Option String := none
  deriving DecidableEq, Repr

namespace Config

def hydraStart (c : Config) : String := if c.hydraMembers then "hydra:" else ""

def below? (ns className : String) : Option (List Char) :=
  let start := ns.toList ++ ['\\']
  if start.isPrefixOf className.toList then some (className.toList.drop start.length) else none

def matchesNamespace (c : Config) (className : String) : Bool :=
  c.namespaces.any fun ns => className == ns || (below? ns className).isSome

def stripNamespace (c : Config) (className : String) : Option String :=
  (c.namespaces.findSome? (below? · className)).map fun r => String.ofList (r.filter (· != '\\'))

end Config

namespace Paging

def labels : List Label :=
  ["enabled", "client_enabled", "client_items_per_page", "client_partial", "page_parameter_name",
    "items_per_page_parameter_name", "enabled_parameter_name", "partial_parameter_name",
    "items_per_page", "maximum_items_per_page"]

def fits (p : Paging) : Checked Paging :=
  match p.maximumItemsPerPage with
  | some m =>
    if m < p.itemsPerPage then .fail (.refused (.pageTooLarge p.itemsPerPage m)) else .valid p
  | none => .valid p

def ofMembers (ms : Json.Members) : Checked Paging :=
  let d : Paging := {}
  (Paging.mk
    <$> memberOr ms "enabled" d.enabled truth
    <*> memberOr ms "client_enabled" d.clientEnabled truth
    <*> memberOr ms "client_items_per_page" d.clientItemsPerPage truth
    <*> memberOr ms "client_partial" d.clientPartial truth
    <*> memberOr ms "page_parameter_name" d.pageParameter nonempty
    <*> memberOr ms "items_per_page_parameter_name" d.itemsPerPageParameter nonempty
    <*> memberOr ms "enabled_parameter_name" d.enabledParameter nonempty
    <*> memberOr ms "partial_parameter_name" d.partialParameter nonempty
    <*> memberOr ms "items_per_page" d.itemsPerPage (intFrom 1)
    <*> memberOr ms "maximum_items_per_page" d.maximumItemsPerPage (orNull (intFrom 1))
    <* closed ms labels).andThen fits

def read : Json → Checked Paging := record ofMembers

def toJson (p : Paging) : Json :=
  .obj [("enabled", .bool p.enabled), ("client_enabled", .bool p.clientEnabled),
    ("client_items_per_page", .bool p.clientItemsPerPage),
    ("client_partial", .bool p.clientPartial), ("page_parameter_name", .str p.pageParameter),
    ("items_per_page_parameter_name", .str p.itemsPerPageParameter),
    ("enabled_parameter_name", .str p.enabledParameter),
    ("partial_parameter_name", .str p.partialParameter), ("items_per_page", .int p.itemsPerPage),
    ("maximum_items_per_page", (p.maximumItemsPerPage.map Json.int).getD .null)]

end Paging

namespace OrderSettings

def labels : List Label := ["parameter_name", "default"]

def ofMembers (ms : Json.Members) : Checked OrderSettings :=
  let d : OrderSettings := {}
  OrderSettings.mk
    <$> memberOr ms "parameter_name" d.parameter nonempty
    <*> memberOr ms "default" d.default (mapping string)
    <* closed ms labels

def read : Json → Checked OrderSettings := record ofMembers

def toJson (o : OrderSettings) : Json :=
  .obj [("parameter_name", .str o.parameter),
    ("default", .obj (o.default.entries.map fun e => (e.1, .str e.2)))]

end OrderSettings

namespace Config

def labels : List Label :=
  ["output_dir", "command_name", "api_prefix", "namespaces", "hydra_prefix", "pagination", "order",
    "datetime_classes", "identifier_classes", "passthrough_classes", "routes_enabled",
    "default_locale", "reserved_route_prefixes", "api_methods_source", "api_base_url"]

def readPathStart (v : Json) : Checked String := (string v).map (Text.trimEnd '/')

/-- Outer backslashes are dropped, and a namespace without anything else with them. -/
def readNamespaces (v : Json) : Checked (List String) :=
  (list string v).map fun names =>
    (names.map fun n => String.ofList (Text.trimWhere (· == '\\') n.toList)).filter (· != "")

def readOrigin (v : Json) : Checked (Option String) :=
  (orNull string v).andThen fun url? =>
    match url? with
    | none => .valid none
    | some url =>
      match Origin.ofUrl url with
      | .ok origin => .valid (some origin)
      | .error objection => .fail (.refused objection)

def ofMembers (ms : Json.Members) : Checked Config :=
  let d : Config := {}
  Config.mk
    <$> memberOr ms "output_dir" d.outputDir string
    <*> memberOr ms "command_name" d.commandName string
    <*> memberOr ms "api_prefix" d.apiPrefix readPathStart
    <*> memberOr ms "namespaces" d.namespaces readNamespaces
    <*> memberOr ms "hydra_prefix" d.hydraMembers truth
    <*> memberOr ms "pagination" d.paging Paging.read
    <*> memberOr ms "order" d.order OrderSettings.read
    <*> memberOr ms "datetime_classes" d.datetimeClasses (list string)
    <*> memberOr ms "identifier_classes" d.identifierClasses (list string)
    <*> memberOr ms "passthrough_classes" d.passthroughClasses (list string)
    <*> memberOr ms "routes_enabled" d.routesEnabled truth
    <*> memberOr ms "default_locale" d.defaultLocale (stringOf 2)
    <*> memberOr ms "reserved_route_prefixes" d.reservedRouteStarts (list string)
    <*> memberOr ms "api_methods_source" d.apiMethodsSource (orNull string)
    <*> memberOr ms "api_base_url" d.apiBaseUrl readOrigin
    <* closed ms labels

def read : Json → Checked Config := record ofMembers

def strings (xs : List String) : Json := .arr (xs.map .str)

def toJson (c : Config) : Json :=
  .obj [("output_dir", .str c.outputDir), ("command_name", .str c.commandName),
    ("api_prefix", .str c.apiPrefix), ("namespaces", strings c.namespaces),
    ("hydra_prefix", .bool c.hydraMembers), ("pagination", c.paging.toJson),
    ("order", c.order.toJson), ("datetime_classes", strings c.datetimeClasses),
    ("identifier_classes", strings c.identifierClasses),
    ("passthrough_classes", strings c.passthroughClasses),
    ("routes_enabled", .bool c.routesEnabled), ("default_locale", .str c.defaultLocale),
    ("reserved_route_prefixes", strings c.reservedRouteStarts),
    ("api_methods_source", (c.apiMethodsSource.map Json.str).getD .null),
    ("api_base_url", (c.apiBaseUrl.map Json.str).getD .null)]

end Config
end HydraClient.Metadata
