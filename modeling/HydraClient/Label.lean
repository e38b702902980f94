import HydraClient.Check
import HydraClient.Draft
import HydraClient.Metadata.Document
import HydraClient.Number.Text

/-! # Labels

A label names a value in a few words between angle brackets, for logs and for looking around.
-/
namespace HydraClient

open Metadata

def angled (text : String) : String := "<" ++ text ++ ">"

def timerLabel (seconds : Binary64) (name : String := "operation") : String :=
  angled ("Timer " ++ name ++ ": " ++ Number.fixed 4 seconds ++ "s")

def TypeUnion.label (u : TypeUnion) : String := angled ("TypeUnion " ++ u.render)

def TypeEntry.label (t : TypeEntry) : String :=
  angled ("TypeDescriptor " ++ t.kind.word ++ " " ++ t.name ++ " @ " ++ t.file.getD "None")

def Metadata.FieldType.label (t : FieldType) : String :=
  let target := match t.className with
    | some c => if c = "" then "" else " " ++ c
    | none => ""
  angled ("TypeShape " ++ t.builtin ++ target ++ if t.collection then "[]" else "")

def Metadata.ClassDecl.label (c : ClassDecl) : String :=
  angled ("ResourceShape " ++ c.className ++
    s!" ({c.fields.length} fields, {c.exposures.length} exposures)")

def Metadata.Document.label (d : Document) : String :=
  angled (s!"MetadataDocument {d.classes.length} classes, {d.enums.length} enums, " ++
    s!"{d.filters.length} filters, {d.routes.length} routes")

def Verdict.label (v : Verdict) : String := angled ("ValidationResult " ++ v.summary)

def TypeRegistry.label (r : TypeRegistry) : String := angled s!"TypeRegistry {r.size} types"

def OperationRegistry.label (r : OperationRegistry) : String :=
  angled s!"OperationRegistry {r.size} entries"

def FileSet.label (s : FileSet) : String := angled s!"FileSet {s.size} files"

end HydraClient
