import HydraClient.Disk
import HydraClient.Failure
import HydraClient.Header

/-! # Synchronisation with the output directory

Every produced body is compared with the file on disk and written when it differs, unless the file
is frozen. Then the managed directories are searched for files that are no longer produced. One
file that fails does not keep the others from being dealt with, unless no disk could hold its name,
and a dry run changes nothing. A managed directory in which a path is too long to be asked for
breaks the synchronisation off.
-/
namespace HydraClient.Sync

inductive Action where
  | written
  | unchanged
  | frozen
  | removed
  | failed
  deriving DecidableEq, Repr

namespace Action

def all : List Action := [written, unchanged, frozen, removed, failed]

def word : Action → String
  | written => "written"
  | unchanged => "unchanged"
  | frozen => "frozen"
  | removed => "removed"
  | failed => "failed"

end Action

structure Record where
  name : String
  path : String
  action : Action
  size : Nat := 0
  lines : Nat := 0
  deriving DecidableEq, Repr

structure Report where
  directory : String := ""
  dryRun : Bool := false
  records : List Record := []
  errors : List Diagnostic := []

namespace Report

def named (r : Report) (a : Action) : List String :=
  (r.records.filter (·.action == a)).map (·.name)

def changed (r : Report) : Nat := (r.named .written).length + (r.named .removed).length

def success (r : Report) : Bool := r.errors.isEmpty

def toJson (r : Report) : Json :=
  let names (xs : List String) : Json := .arr (xs.map .str)
  .obj ([("output_directory", .str r.directory), ("dry_run", .bool r.dryRun)] ++
    Action.all.map (fun a => (a.word, names (r.named a))) ++
    [("errors", names (r.errors.map (·.text)))])

end Report

def extension : String := ".ts"

def managed : List String := ["interfaces", "endpoint"]

structure Target where
  directory : FilePath
  command : String
  clock : Timestamp
  dryRun : Bool := false

def Target.pathOf (t : Target) (name : String) : FilePath := t.directory / (name ++ extension)

structure Progress where
  disk : Disk
  report : Report

namespace Progress

def record (p : Progress) (r : Record) : Progress :=
  { p with report := { p.report with records := p.report.records ++ [r] } }

def fail (p : Progress) (name : String) (path : FilePath) (verb : String) (f : DiskFault) :
    Progress :=
  let d : Diagnostic := ⟨.fileWrite, s!"Failed to {verb} {name}: {f.className}: {f.message}",
    [("file", .str name), ("path", .str path.text)]⟩
  { p with report := { p.report with
      errors := p.report.errors ++ [d]
      records := p.report.records ++ [⟨name, path.text, .failed, 0, 0⟩] } }

end Progress

def existing (d : Disk) (path : FilePath) : Except DiskFault (Option Header) :=
  match d.exists? path with
  | .error e => .error (.refused e path)
  | .ok false => .ok none
  | .ok true => (d.readText path).map fun s => some (Header.parse s)

/-- Writes a file. A path that names nothing breaks the synchronisation off, with the disk as it is
then. -/
def writeFile (t : Target) (p : Progress) (name : String) (path : FilePath) (content : String) :
    Except Disk Progress :=
  let done (p : Progress) (size : Nat) : Progress :=
    p.record ⟨name, path.text, .written, size, Text.countLines content⟩
  if t.dryRun then .ok (done p content.utf8ByteSize)
  else match p.disk.writeText path content with
    | (disk, .ok size) => .ok (done { p with disk } size)
    | (disk, .error .unnameable) => .error disk
    | (disk, .error f) => .ok ({ p with disk }.fail name path "write" f)

def syncFile (t : Target) (p : Progress) (name body : String) : Except Disk Progress :=
  let path := t.pathOf name
  let content := Header.write (Header.banner t.command t.clock) body
  match existing p.disk path with
  | .error f => .ok (p.fail name path "write" f)
  | .ok none => writeFile t p name path content
  | .ok (some h) =>
    if h.body = body then .ok (p.record { name, path := path.text, action := .unchanged })
    else if h.isFrozen then .ok (p.record { name, path := path.text, action := .frozen })
    else writeFile t p name path content

def removeFile (t : Target) (p : Progress) (name : String) (path : FilePath) : Progress :=
  match p.disk.readText path with
  | .error f => p.fail name path "remove" f
  | .ok content =>
    if (Header.parse content).isFrozen then
      p.record { name, path := path.text, action := .frozen }
    else
      let removed : Record := { name, path := path.text, action := .removed }
      if t.dryRun then p.record removed
      else match p.disk.remove path with
        | (disk, .ok ()) => { p with disk }.record removed
        | (disk, .error f) => { p with disk }.fail name path "remove" f

def nameOf (way : List String) : String :=
  let text := String.intercalate "/" way
  String.ofList (text.toList.take (text.length - extension.length))

def removeStale (t : Target) (produced : List String) (p : Progress) (directory : String) :
    Progress :=
  let root := t.directory / directory
  if !p.disk.isDirectory root then p
  else (p.disk.search root extension).foldl (fun p way =>
    let name := nameOf (directory :: way)
    if produced.contains name then p
    else removeFile t p name { root with segments := root.segments ++ way }) p

/-- Clears a managed directory, which has to be searched first. -/
def sweep (t : Target) (produced : List String) (p : Progress) (directory : String) :
    Except (Disk × FilePath) Progress :=
  match p.disk.unsearchable? (t.directory / directory) with
  | some path => .error (p.disk, path)
  | none => .ok (removeStale t produced p directory)

/-- Synchronises a directory. A managed directory that cannot be searched breaks the synchronisation
off, with the disk as it is then. -/
def synchronize (t : Target) (disk : Disk) (files : OrderedMap String String) :
    Disk × Except Failure Report :=
  let start : Progress := ⟨disk, { directory := t.directory.text, dryRun := t.dryRun }⟩
  match files.entries.foldlM (fun p e => syncFile t p e.1 e.2) start with
  | .error disk => (disk, .error .unnameable)
  | .ok written =>
    match managed.foldlM (sweep t files.keys) written with
    | .error (disk, path) => (disk, .error (.nameTooLong path))
    | .ok p => (p.disk, .ok p.report)

end HydraClient.Sync
