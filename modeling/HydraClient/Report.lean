import HydraClient.Number.Text
import HydraClient.Sync

/-! # Reports of runs

A report says what a run took in and brought out. Its counts are whole numbers, so that two reports
can also be compared by a report of the differences.
-/
namespace HydraClient

structure StepMetric where
  name : String
  success : Bool := true
  elapsed : Binary64 := .zero
  detail : String := ""
  deriving DecidableEq, Repr

structure Report where
  success : Bool := false
  output : String := ""
  dryRun : Bool := false
  types : Int := 0
  resources : Int := 0
  lines : Int := 0
  elapsed : Binary64 := .zero
  steps : List StepMetric := []
  errors : List String := []
  warnings : List String := []
  failure : Option Diagnostic := none
  files : OrderedMap String String := .empty
  sync : Option Sync.Report := none

namespace Report

def writeErrors (r : Report) : List String :=
  match r.sync with
  | some s => s.errors.map (·.text)
  | none => []

def changed (r : Report) : Nat := (r.sync.map (·.changed)).getD 0

/-- A run succeeds when no check, no step and no file failed. -/
def succeeds (r : Report) : Bool :=
  r.errors.isEmpty && r.failure.isNone && r.writeErrors.isEmpty

def rule (c : Char) : String := String.ofList (List.replicate 60 c)

def padStart (width : Nat) (s : String) : String := Number.padLeft ' ' width s

def stepLine (s : StepMetric) : String :=
  "    " ++ (if s.success then "✓" else "✗") ++ " " ++ Number.padRight 28 s.name ++ " " ++
    padStart 7 (Number.fixed 3 s.elapsed) ++ "s  " ++ s.detail

def listing (title mark : String) (items : List String) : List String :=
  if items.isEmpty then []
  else [rule '─', "  " ++ title ++ s!" ({items.length}):"] ++
    items.map fun i => "    " ++ mark ++ " " ++ i

def actionLines (s : Sync.Report) (label : String) (a : Sync.Action) : List String :=
  let names := s.named a
  if names.isEmpty then []
  else ("  " ++ label ++ s!" ({names.length}):") :: names.map ("    • " ++ ·)

def syncLines (r : Report) (s : Sync.Report) : List String :=
  [rule '─'] ++ actionLines s "Written" .written ++ actionLines s "Removed" .removed ++
    actionLines s "Kept (@no-regenerate)" .frozen ++ r.writeErrors.map ("    ✗ " ++ ·) ++
    [if r.changed = 0 then "  No files changed."
      else s!"  Done. {r.changed} file(s) changed."]

def summary (r : Report) : String :=
  let status := (if r.success then "✅ SUCCESS" else "❌ FAILED") ++
    (if r.dryRun then " (dry run)" else "")
  let head := [rule '=', "  APIGen-TS: Generation Report", rule '=',
    "  Status:           " ++ status,
    "  Output:           " ++ r.output,
    s!"  Resources:        {r.resources}",
    s!"  Types:            {r.types}",
    s!"  Files produced:   {r.files.size}",
    "  Total lines:      " ++ Number.grouped r.lines,
    "  Total time:       " ++ Number.fixed 3 r.elapsed ++ "s",
    rule '─']
  let steps := if r.steps.isEmpty then [] else "  Pipeline Steps:" :: r.steps.map stepLine
  let failure := match r.failure with
    | some d => [rule '─', "  Generation Error:", "    ✗ " ++ d.text]
    | none => []
  let sync := match r.sync with
    | some s => syncLines r s
    | none => []
  String.intercalate "\n" (head ++ steps ++ listing "Validation Errors" "✗" r.errors ++
    listing "Validation Warnings" "⚠" r.warnings ++ failure ++ sync ++ [rule '='])

end Report
end HydraClient
