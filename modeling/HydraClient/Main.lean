import HydraClient.CommandLine
import Std.Time.DateTime.Timestamp

/-! # The program

What a run may read or change is copied into a disk value, the run is computed on it, and what the
run changed is carried out.
-/
namespace HydraClient.Main

def pathOf (place : Place) : String := "/" ++ String.intercalate "/" place

/-- Copies a file, or a directory with everything below it. -/
partial def copyAll (disk : Disk) (place : Place) : IO Disk := do
  let path := (← IO.currentDir) / pathOf place
  if ← path.isDir then
    let names := (← path.readDir).map (·.fileName)
    names.foldlM (fun disk name => copyAll disk (place ++ [name])) (disk.put place .directory)
  else if ← path.pathExists then
    return disk.put place (.file (← IO.FS.readBinFile path))
  else
    return disk

def copy (disk : Disk) (p : FilePath) : IO Disk := do
  let place := (p.resolve disk.home).segments
  let mut disk := disk
  for i in [1:place.length] do
    let path := (← IO.currentDir) / pathOf (place.take i)
    if ← path.isDir then
      disk := disk.put (place.take i) .directory
    else if ← path.pathExists then
      disk := disk.put (place.take i) (.file .empty)
  copyAll disk place

/-- Carries out what is different between two disks. -/
def carryOut (before after : Disk) : IO Unit := do
  for (place, e) in after.entries.entries do
    if before.find? place ≠ some e then
      match e with
      | .directory => IO.FS.createDirAll (pathOf place)
      | .file content => IO.FS.writeBinFile (pathOf place) content
  for (place, _) in before.entries.entries do
    if after.find? place = none then
      IO.FS.removeFile (pathOf place)

def gather (args : List String) : IO Disk := do
  let here := FilePath.ofText (← IO.currentDir).toString
  let disk := Disk.atHome here.segments
  match CommandLine.parse args with
  | .error _ => return disk
  | .ok a =>
    match a.source disk.home with
    | .error _ => return disk
    | .ok source =>
      let disk ← copy disk source
      (a.reach source disk).foldlM copy disk

end HydraClient.Main

def main (args : List String) : IO UInt32 := do
  let before ← HydraClient.Main.gather args
  let seconds := (← Std.Time.Timestamp.now).toSecondsSinceUnixEpoch.val.toNat
  let (after, outcome) := HydraClient.CommandLine.run args (.ofSeconds seconds) before
  HydraClient.Main.carryOut before after
  match outcome with
  | .ok answer =>
    IO.print answer.output
    return answer.code.number.toUInt32
  | .error f =>
    IO.eprintln f.faultText
    return 1
