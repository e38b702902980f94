import HydraClient.Check
import HydraClient.Linking
import HydraClient.Metadata.Load
import HydraClient.Operations
import HydraClient.Render.Endpoints
import HydraClient.Render.Types
import HydraClient.Report
import HydraClient.Routes

/-! # Runs

A run checks its document, builds a draft step by step, puts the files together and brings the
output directory up to date. The first failure of a step ends the run before anything is written.
-/
namespace HydraClient

open Metadata (Config Document)

/-- Where callers may step in: the whole draft, each route, and the fragments of all files. -/
structure Hooks where
  draft : Option (Draft → Except Failure Draft) := none
  route : Routes.Hook := id
  files : Option (FileSet → FileSet) := none

structure Options where
  dryRun : Bool := false
  clock : Timestamp
  hooks : Hooks := {}

/-- The fragments of a draft, once the hook on them has had its way. -/
def Options.fragments (o : Options) (d : Draft) : FileSet :=
  (o.hooks.files.map (· d.files)).getD d.files

/-- A draft under construction, with the steps taken so far. -/
structure Run where
  draft : Draft := {}
  steps : List StepMetric := []

namespace Run

def step (r : Run) (name : String) (work : Drafting String) : Except Failure Unit × Run :=
  match work.run.run r.draft with
  | (.ok detail, draft) => (.ok (), ⟨draft, r.steps ++ [{ name, detail }]⟩)
  | (.error f, draft) =>
    match f.diagnostic? with
    | some d => (.error f, ⟨draft, r.steps ++ [{ name, success := false, detail := d.text }]⟩)
    | none => (.error f, ⟨draft, r.steps⟩)

def takeSteps (r : Run) : List (String × Drafting String) → Except Failure Unit × Run
  | [] => (.ok (), r)
  | (name, work) :: rest =>
    match r.step name work with
    | (.ok (), r) => r.takeSteps rest
    | failed => failed

end Run

namespace Pipeline

def extraction (cat : Catalog) (disk : Disk) : List (String × Drafting String) := [
  ("Seed Base Types", do
    BaseTypes.seed cat.config disk
    let n := (← get).types.size
    pure s!"{n} base types"),
  ("Extract Models", do
    let models ← Model.extractAll cat
    pure s!"{models.length} resources"),
  ("Extract Operations", do
    let entries ← Operations.extractAll cat
    pure s!"{entries.length} entries"),
  ("Link Child Endpoints", do
    let (operations, added) := Linking.link (← get).operations
    Drafting.setOperations operations
    pure s!"{added} child endpoints"),
  ("Payload Helpers", do
    let n ← Payload.shapeAll
    pure s!"{n} helpers")]

def composeRoutes (cat : Catalog) (hook : Routes.Hook) : Drafting Nat := do
  let lines ← Routes.compose cat.config hook cat.routes
  if let some f := Routes.fragment? lines then
    Drafting.addFragment Routes.routesFile f
  pure lines.length

def composition (cat : Catalog) (hook : Routes.Hook) : List (String × Drafting String) :=
  [("Compose Types & Endpoints", do
    let _ ← Render.composeTypes
    let _ ← Render.composeEndpoints
    let n := (← get).files.size
    pure s!"{n} files")] ++
  if cat.config.routesEnabled then
    [("Compose Routes", do
      let n ← composeRoutes cat hook
      pure s!"{n} constants")]
  else []

def build (cat : Catalog) (disk : Disk) (hooks : Hooks) : Except Failure Unit × Run :=
  match ({} : Run).takeSteps (extraction cat disk) with
  | (.ok (), r) =>
    match hooks.draft with
    | none => r.takeSteps (composition cat hooks.route)
    | some hook =>
      match hook r.draft with
      | .ok draft => { r with draft }.takeSteps (composition cat hooks.route)
      | .error f => (.error f, r)
  | failed => failed

def checkStep (v : Verdict) : StepMetric where
  name := "Validate Metadata"
  success := v.isValid
  detail :=
    if v.hasErrors then s!"{v.errors.length} error(s)"
    else if v.warnings.isEmpty then "all checks passed"
    else s!"{v.warnings.length} warning(s)"

def deliver (config : Config) (target : FilePath) (o : Options) (disk : Disk) (report : Report)
    (draft : Draft) : Disk × Except Failure Report :=
  match (o.fragments draft).unplaced? with
  | some place => (disk, .error (.importUnplaced place))
  | none =>
    let files := (o.fragments draft).assemble
    let lines := files.values.foldl (fun n t => n + Text.countLines t) 0
    let (disk, synced) :=
      Sync.synchronize ⟨target, config.commandName, o.clock, o.dryRun⟩ disk files
    (disk, synced.map fun sync => { report with
      files
      types := (draft.types.toList.filter (·.isRendered)).length
      resources := draft.operations.size
      lines
      sync := some sync
      steps := report.steps ++ [
        { name := "Assemble Files"
          detail := s!"{files.size} files, ~" ++ Number.grouped lines ++ " lines" },
        { name := "Synchronize Output"
          success := sync.success
          detail := s!"{sync.changed} changed" }] })

/-- Runs a document. A failure that is not reported breaks the run off. -/
def generate (d : Document) (output : Option FilePath) (o : Options) (disk : Disk) :
    Disk × Except Failure Report :=
  let target := output.getD (FilePath.ofText d.config.outputDir)
  let v := d.verdict
  let report : Report := {
    output := target.text
    dryRun := o.dryRun
    errors := v.errors.map (·.text)
    warnings := v.warnings.map (·.text)
    steps := [checkStep v] }
  let finish (r : Report) : Report := { r with success := r.succeeds }
  if v.hasErrors then (disk, .ok (finish report))
  else match build (.ofDocument d) disk o.hooks with
    | (.error f, r) =>
      match f.diagnostic? with
      | some diagnostic =>
        (disk, .ok (finish { report with
          failure := some diagnostic, steps := report.steps ++ r.steps }))
      | none => (disk, .error f)
    | (.ok (), r) =>
      let (disk, delivered) :=
        deliver d.config target o disk { report with steps := report.steps ++ r.steps } r.draft
      (disk, delivered.map finish)

/-- The step of loading stands first in the report. -/
def loadStep (path : FilePath) : StepMetric where
  name := "Load Metadata"
  detail := "from " ++ path.name

def generateFile (path : FilePath) (settings : List (String × Json)) (output : Option FilePath)
    (o : Options) (disk : Disk) : Disk × Except Failure Report :=
  match Metadata.loadDocument disk path settings with
  | .error f => (disk, .error f)
  | .ok d =>
    match generate d output o disk with
    | (disk, .ok r) => (disk, .ok { r with steps := loadStep path :: r.steps })
    | failed => failed

end Pipeline
end HydraClient
