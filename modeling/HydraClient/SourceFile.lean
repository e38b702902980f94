import HydraClient.ModulePath
import HydraClient.OrderedMap
import HydraClient.Text.Blank

/-! # Source files

A file is put together from fragments, the ones of higher priority first. Their imports are written
once, at the head of the file.
-/
namespace HydraClient

structure Fragment where
  body : String
  priority : Int := 100
  imports : Imports := .empty
  deriving DecidableEq, Repr

abbrev FileSet := OrderedMap String (List Fragment)

namespace FileSet

def fragments (s : FileSet) (file : String) : List Fragment := (s.get? file).getD []

def add (s : FileSet) (file : String) (f : Fragment) : FileSet :=
  s.insert file (s.fragments file ++ [f])

@[simp] theorem mem_fragments_add {s : FileSet} {file file' : String} {f f' : Fragment} :
    f' ∈ (s.add file f).fragments file' ↔ f' ∈ s.fragments file' ∨ file' = file ∧ f' = f := by
  simp only [fragments, add, OrderedMap.get?_insert]
  split
  · rename_i h
    simp [h]
  · rename_i h
    simp [h]

end FileSet

namespace SourceFile

def importPriority : Int := 1100

def typePriority : Int := 100

def endpointPriority : Int := 50

def payloadPriority : Int := -100

def importsOf (fragments : List Fragment) : Imports :=
  fragments.foldl (fun i f => i.merge f.imports) .empty

def ordered (file : String) (fragments : List Fragment) : List Fragment :=
  let block := ModulePath.importBlock file (importsOf fragments)
  let all :=
    if block = "" then fragments
    else fragments ++ [{ body := block, priority := importPriority }]
  all.mergeSort fun a b => b.priority ≤ a.priority

def assemble (file : String) (fragments : List Fragment) : String :=
  let bodies := ((ordered file fragments).map fun f => Text.trimLines f.body).filter (· != "")
  let body := Text.trimLines (String.intercalate "\n\n" bodies)
  if body = "" then "" else body ++ "\n"

end SourceFile

/-- The first file that takes a name from nowhere, so that it is not put together. -/
def FileSet.unplaced? (s : FileSet) : Option Imports.Unplaced :=
  s.entries.findSome? fun e => (SourceFile.importsOf e.2).unplaced?

/-- The files with content, in order of their first contribution. -/
def FileSet.assemble (s : FileSet) : OrderedMap String String :=
  .ofList (s.entries.filterMap fun (file, fragments) =>
    let body := SourceFile.assemble file fragments
    if body = "" then none else some (file, body))

end HydraClient
