import HydraClient.Failure
import HydraClient.FilePath
import HydraClient.Metadata.Decode
import HydraClient.Metadata.Dump

/-! # Metadata documents

A document holds the configuration and every declaration. Settings of the caller are laid over the
ones that the document brings.
-/
namespace HydraClient.Metadata

open Read

structure Document where
  config : Config := {}
  classes : List ClassDecl := []
  enums : List EnumDecl := []
  filters : List Filter := []
  routes : List Route := []

namespace Document

def labels : List Label := ["config", "resources", "enums", "filters", "routes"]

def ofMembers (ms : Json.Members) : Checked Document :=
  Document.mk
    <$> memberOr ms "config" {} Config.read
    <*> memberOr ms "resources" [] (list ClassDecl.read)
    <*> memberOr ms "enums" [] (list EnumDecl.read)
    <*> memberOr ms "filters" [] (list Filter.read)
    <*> memberOr ms "routes" [] (list Route.read)
    <* closed ms labels

def read : Json → Checked Document := record ofMembers

def resourceCount (d : Document) : Nat := (d.classes.filter (·.isAddressable)).length

def toJson (d : Document) : Json :=
  .obj [("config", d.config.toJson), ("resources", .arr (d.classes.map ClassDecl.toJson)),
    ("enums", .arr (d.enums.map EnumDecl.toJson)),
    ("filters", .arr (d.filters.map Filter.toJson)),
    ("routes", .arr (d.routes.map Route.toJson)), ("resource_count", .int d.resourceCount)]

/-- Settings are laid over the configuration of a document, which counts as empty when it is
missing, null or otherwise hollow. -/
def withSettings (settings : List (String × Json)) (ms : Json.Members) :
    Except Failure Json.Members :=
  let settled (config : Json.Members) : Json.Members :=
    let config := settings.foldl (fun c s => Scalar.put c (.str s.1) s.2) config
    Scalar.put ms (.str "config") (.ofMembers config)
  if settings.isEmpty then .ok ms
  else
    let config := (Json.lookup? "config" ms).getD .null
    match config.members? with
    | some members => .ok (settled members)
    | none =>
      if config.isTruthy then .error (.configNotMapping config.qualifiedKind)
      else .ok (settled [])

/-- A relative helper source is looked up from the directory of the document. -/
def rebase (base : FilePath) (d : Document) : Document :=
  match d.config.apiMethodsSource with
  | some source =>
    if source = "" || (FilePath.ofText source).isAbsolute then d
    else { d with config := { d.config with apiMethodsSource := some (base / source).text } }
  | none => d

def parse (base : Option FilePath) (settings : List (String × Json)) (raw : Json) :
    Except Failure Document := do
  let raw ← match raw.members? with
    | some ms => (withSettings settings ms).map Json.ofMembers
    | none => pure raw
  match read raw with
  | .valid d =>
    pure (match base with
      | some b => rebase b d
      | none => d)
  | .invalid issues => throw (.invalidDocument issues)

end Document
end HydraClient.Metadata
