import HydraClient.Disk
import HydraClient.Json.Parser
import HydraClient.Metadata.Document
import HydraClient.Yaml.Value

/-! # Metadata files

The ending of the file name selects JSON; everything else is read as YAML.
-/
namespace HydraClient.Metadata

def notationOf (path : FilePath) : Notation :=
  if Text.lower path.suffix = ".json" then .json else .yaml

/-- The value of a text. A scalar that no value can be made of is no fault of the notation. -/
def parseText (format : Notation) (path : String) (text : String) : Except Failure Json :=
  match format with
  | .json =>
    match Json.parse text with
    | .ok v => .ok v
    | .error .malformed => .error (.malformed .json path)
    | .error (.intTooLong n) => .error (.misfit (.intTooLong n))
    | .error (.surrogate n) => .error (.misfit (.surrogate n))
  | .yaml =>
    match Yaml.parse text with
    | .ok v => .ok v
    | .error .malformed => .error (.malformed .yaml path)
    | .error f => .error (.misfit f)

def loadFile (disk : Disk) (path : FilePath) : Except Failure Json :=
  if disk.refuses path then .error (.nameTooLong path)
  else if !disk.isFile path then .error (.metadataMissing path.text)
  else match disk.readText path with
    | .error _ => .error .undecodable
    | .ok text =>
      let format := notationOf path
      match parseText format path.text text with
      | .error f => .error f
      | .ok (.obj ms) => .ok (.obj ms)
      | .ok (.dict ms) => .ok (.dict ms)
      | .ok v => .error (.notMapping format v.kindName path.text)

def loadDocument (disk : Disk) (path : FilePath) (settings : List (String × Json)) :
    Except Failure Document := do
  Document.parse (some path.parent) settings (← loadFile disk path)

end HydraClient.Metadata
