import HydraClient.Disk
import HydraClient.Imports
import HydraClient.Json.Display
import HydraClient.Json.Printer
import HydraClient.Metadata.Checked
import HydraClient.Yaml.Fault

/-! # Failures

Every way in which a run can fail, with its cause. Most failures belong to a category and are
reported with a message and a context; the rest are faults that no step of a run reports.
-/
namespace HydraClient

/-- The categories of reported failures. A fatal one stops the run before anything is written. -/
inductive Category where
  | general
  | metadataLoad
  | unknownFieldShape
  | unknownOperationKind
  | nameConflict
  | unexposedFilterField
  | fileWrite
  deriving DecidableEq, Repr

namespace Category

def code : Category → String
  | general => "GENERATOR_ERROR"
  | metadataLoad => "METADATA_LOAD_ERROR"
  | unknownFieldShape => "UNKNOWN_FIELD_SHAPE"
  | unknownOperationKind => "UNKNOWN_OPERATION_KIND"
  | nameConflict => "NAME_CONFLICT"
  | unexposedFilterField => "UNEXPOSED_FILTER_FIELD"
  | fileWrite => "FILE_WRITE_ERROR"

/-- A file that cannot be written does not keep the others from being written. -/
def isFatal : Category → Bool
  | fileWrite => false
  | _ => true

end Category

structure Diagnostic where
  category : Category
  message : String
  context : List (String × Json) := []

def Diagnostic.text (d : Diagnostic) : String :=
  if d.context.isEmpty then d.message
  else d.message ++ " (" ++
    String.intercalate ", " (d.context.map fun e => e.1 ++ "=" ++ e.2.display) ++ ")"

inductive Notation where
  | json
  | yaml
  deriving DecidableEq, Repr

namespace Notation

def word : Notation → String
  | json => "JSON"
  | yaml => "YAML"

def topLevel : Notation → String
  | json => "JSON object"
  | yaml => "YAML mapping"

end Notation

inductive Failure where
  | metadataMissing (path : String)
  | malformed (format : Notation) (path : String)
  | notMapping (format : Notation) (found path : String)
  | invalidDocument (issues : List Metadata.Issue)
  | helperUnreadable (path reason : String)
  | classUndescribed (className : String)
  | enumUndescribed (className : String)
  | builtinUnknown (builtin : String) (owner : Option String) (property : String)
  | classUnknown (className : String) (owner : Option String) (property : String)
  | elementUnknown (builtin : String) (owner : Option String) (property : String)
  | elementClassUnknown (className : String) (owner : Option String) (property : String)
  | operationUnknown (type : Option String) (method : String) (name : Option String)
  | nameTaken (name : String) (holder claimant : Option String)
  | noFreeName (source : String) (candidates : List String)
  | propertyUnexposed (property typeName : String) (source : Option String) (path filter : String)
  | keyAbsent (key : String)
  | unrenderable (typeName kind : String)
  | notIterable (kind : String)
  | configNotMapping (kind : String)
  | undecodable
  /-- A scalar that no value can be made of. -/
  | misfit (fault : Yaml.Fault)
  | unwritable (reason : Json.Unwritable)
  /-- A name is to be imported that no file declares. -/
  | importUnplaced (place : Imports.Unplaced)
  /-- The metadata file is asked for by no name. -/
  | sourceUnnamed
  /-- A path is asked for that no disk could hold. -/
  | unnameable
  /-- A path is asked for on whose way a name is too long. -/
  | nameTooLong (path : FilePath)
  deriving DecidableEq

namespace Failure

def optionalName : Option String → Json
  | some s => .str s
  | none => .null

def diagnostic? : Failure → Option Diagnostic
  | metadataMissing path =>
    some ⟨.metadataLoad, s!"Metadata file not found: {path}", [("path", .str path)]⟩
  | malformed format path =>
    some ⟨.metadataLoad, s!"Invalid {format.word} in {path}", [("path", .str path)]⟩
  | notMapping format found path =>
    some ⟨.metadataLoad, s!"Expected a {format.topLevel} at top level, got {found}.",
      [("path", .str path)]⟩
  | invalidDocument _ => some ⟨.metadataLoad, "Metadata validation failed", []⟩
  | helperUnreadable path reason =>
    some ⟨.metadataLoad, s!"Cannot read runtime helper source: {reason}", [("path", .str path)]⟩
  | classUndescribed c =>
    some ⟨.unknownFieldShape, s!"Class '{c}' is not described.", [("class", .str c)]⟩
  | enumUndescribed c =>
    some ⟨.unknownFieldShape, s!"Enum '{c}' is not described.", [("enum", .str c)]⟩
  | builtinUnknown builtin owner property =>
    some ⟨.unknownFieldShape, s!"Unknown builtin type '{builtin}'.", field owner property⟩
  | classUnknown c owner property =>
    some ⟨.unknownFieldShape, s!"Cannot classify class '{c}'.", field owner property⟩
  | elementUnknown builtin owner property =>
    some ⟨.unknownFieldShape, s!"Unknown collection element type '{builtin}'.",
      field owner property⟩
  | elementClassUnknown c owner property =>
    some ⟨.unknownFieldShape, s!"Cannot classify collection element class '{c}'.",
      field owner property⟩
  | operationUnknown type method name =>
    let shown := match type with
      | some t => if t = "" then method else t
      | none => method
    some ⟨.unknownOperationKind, s!"Unknown operation '{shown}'.",
      [("type", optionalName type), ("method", .str method), ("name", optionalName name)]⟩
  | nameTaken name holder claimant =>
    some ⟨.nameConflict, s!"Type name '{name}' is already used by another source.",
      [("name", .str name), ("existing_source", optionalName holder),
        ("new_source", optionalName claimant)]⟩
  | noFreeName source candidates =>
    some ⟨.nameConflict, s!"Cannot derive a unique type name for '{source}'.",
      [("source", .str source), ("candidates", .arr (candidates.map .str))]⟩
  | propertyUnexposed property typeName source path filter =>
    some ⟨.unexposedFilterField,
      s!"Filter references property '{property}' which is not exposed on {typeName}.",
      [("resource", optionalName source), ("property", .str path), ("filter", .str filter)]⟩
  | _ => none
where
  field (owner : Option String) (property : String) : List (String × Json) :=
    [("class", optionalName owner), ("property", .str property)]

def faultText : Failure → String
  | keyAbsent key => Text.quoted key
  | unrenderable name kind => s!"Type '{name}' of kind {kind} cannot be rendered."
  | notIterable kind => s!"'{kind}' object is not iterable"
  | configNotMapping kind => s!"'{kind}' object is not a mapping"
  | misfit fault => fault.text
  | unwritable (.value kind) => s!"Object of type {kind} is not JSON serializable"
  | unwritable (.key kind) => s!"keys must be str, int, float, bool or None, not {kind}"
  | unwritable .loop => "Circular reference detected"
  | unwritable .intTooLong => Text.digitLimit
  | importUnplaced .alone => "expected str, bytes or os.PathLike object, not NoneType"
  | importUnplaced .first => "'<' not supported between instances of 'str' and 'NoneType'"
  | importUnplaced .later => "'<' not supported between instances of 'NoneType' and 'str'"
  | unnameable => "embedded null byte"
  | nameTooLong path => (DiskFault.refused .nameTooLong path).message
  | sourceUnnamed => "expected str, bytes or os.PathLike object, not list"
  | f => (f.diagnostic?.map (·.text)).getD ""

end Failure
end HydraClient
