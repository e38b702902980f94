import HydraClient.FilePath
import HydraClient.OrderedMap
import HydraClient.Text.Lines
import HydraClient.Text.Quoted
import HydraClient.Text.Utf8

/-! # A disk as a value

Files and directories by their place, and the working directory that relative paths start from.
Following a path needs every directory on the way, also one that a step up leaves again. What an
operation changed before it failed stays changed.
-/
namespace HydraClient

abbrev Place := List String

/-- The order of ways, name by name: a way comes before what it leads on to. -/
def Place.atMost : Place → Place → Bool
  | [], _ => true
  | _ :: _, [] => false
  | a :: as, b :: bs => if a = b then Place.atMost as bs else a < b

inductive Entry where
  | file (content : ByteArray)
  | directory

/-- Files are equal when their bytes are. -/
instance : DecidableEq Entry
  | .file a, .file b =>
    if h : a.data = b.data then .isTrue (congrArg Entry.file (ByteArray.ext h))
    else .isFalse fun e => h (congrArg ByteArray.data (Entry.file.inj e))
  | .directory, .directory => .isTrue rfl
  | .file _, .directory => .isFalse Entry.noConfusion
  | .directory, .file _ => .isFalse Entry.noConfusion

inductive DiskError where
  | noEntry
  | busy
  | alreadyThere
  | notDirectory
  | isDirectory
  | nameTooLong
  deriving DecidableEq, Repr

namespace DiskError

def number : DiskError → Nat
  | noEntry => 2
  | busy => 16
  | alreadyThere => 17
  | notDirectory => 20
  | isDirectory => 21
  | nameTooLong => 36

def wording : DiskError → String
  | noEntry => "No such file or directory"
  | busy => "Device or resource busy"
  | alreadyThere => "File exists"
  | notDirectory => "Not a directory"
  | isDirectory => "Is a directory"
  | nameTooLong => "File name too long"

def className : DiskError → String
  | noEntry => "FileNotFoundError"
  | alreadyThere => "FileExistsError"
  | notDirectory => "NotADirectoryError"
  | isDirectory => "IsADirectoryError"
  | busy | nameTooLong => "OSError"

end DiskError

inductive DiskFault where
  | refused (error : DiskError) (path : FilePath)
  | undecodable (fault : Text.DecodeFault)
  | unnameable
  deriving DecidableEq

namespace DiskFault

def message : DiskFault → String
  | refused e p => s!"[Errno {e.number}] {e.wording}: " ++ Text.quoted p.text
  | undecodable f => f.message
  | unnameable => "embedded null byte"

def className : DiskFault → String
  | refused e _ => e.className
  | undecodable _ => "UnicodeDecodeError"
  | unnameable => "ValueError"

end DiskFault

structure Disk where
  entries : OrderedMap Place Entry := .empty
  home : Place := []

namespace Disk

instance : Inhabited Disk := ⟨{}⟩

/-- The top of the disk is always a directory. -/
def find? (d : Disk) (l : Place) : Option Entry :=
  if l.isEmpty then some .directory else d.entries.get? l

def put (d : Disk) (l : Place) (e : Entry) : Disk := { d with entries := d.entries.insert l e }

def drop (d : Disk) (l : Place) : Disk := { d with entries := d.entries.erase l }

/-- Puts an entry and the directories above it, as far as they are not there. -/
def plant (d : Disk) (l : Place) (e : Entry) : Disk :=
  let above := ((List.range l.length).map fun i => l.take i).filter fun k => (d.find? k).isNone
  (above.foldl (fun d k => d.put k .directory) d).put l e

def atHome (home : Place) : Disk := plant { home } home .directory

/-- Drops an entry with everything below it. -/
def uproot (d : Disk) (l : Place) : Disk :=
  (d.entries.keys.filter (l.isPrefixOf ·)).foldl drop d

def nameFits (s : String) : Bool := s.utf8ByteSize ≤ 255

def follow (d : Disk) (l : Place) : List String → Except DiskError Place
  | [] => .ok l
  | s :: rest =>
    match d.find? l with
    | none => .error .noEntry
    | some (.file _) => .error .notDirectory
    | some .directory =>
      if s = ".." then d.follow l.dropLast rest
      else if nameFits s then d.follow (l ++ [s]) rest
      else .error .nameTooLong

def start (d : Disk) (p : FilePath) : Place := if p.isAbsolute then [] else d.home

def locate (d : Disk) (p : FilePath) : Except DiskError Place :=
  if p.fits then d.follow (d.start p) p.segments else .error .nameTooLong

def status (d : Disk) (p : FilePath) : Except DiskError Entry := do
  let l ← d.locate p
  match d.find? l with
  | some e => pure e
  | none => throw .noEntry

/-- Whether a path leads somewhere. Only a path that is too long, or a name on it, is an error. -/
def exists? (d : Disk) (p : FilePath) : Except DiskError Bool :=
  if !p.isNameable then .ok false
  else match d.status p with
  | .ok _ => .ok true
  | .error .nameTooLong => .error .nameTooLong
  | .error _ => .ok false

/-- Whether the question what a path leads to is refused, as the path or a name on it is too long. A
path that no disk could hold leads nowhere. -/
def refuses (d : Disk) (p : FilePath) : Bool :=
  match d.status p with
  | .error .nameTooLong => p.isNameable
  | _ => false

def isFile (d : Disk) (p : FilePath) : Bool :=
  match d.status p with
  | .ok (.file _) => true
  | _ => false

def isDirectory (d : Disk) (p : FilePath) : Bool :=
  match d.status p with
  | .ok .directory => true
  | _ => false

def readBytes (d : Disk) (p : FilePath) : Except DiskFault ByteArray :=
  if !p.isNameable then .error .unnameable
  else match d.status p with
  | .ok (.file content) => .ok content
  | .ok .directory => .error (.refused .isDirectory p)
  | .error e => .error (.refused e p)

/-- The text of a file, its line breaks unified. -/
def readText (d : Disk) (p : FilePath) : Except DiskFault String := do
  let content ← d.readBytes p
  match Text.decodeUtf8 content with
  | .ok s => pure (String.ofList (Text.unifyBreaks s.toList))
  | .error f => throw (.undecodable f)

def makeDirectory (d : Disk) (p : FilePath) : Except DiskError Disk := do
  let l ← d.locate p
  match d.find? l with
  | some _ => throw .alreadyThere
  | none => pure (d.put l .directory)

def settleDirectory (d : Disk) (p : FilePath) : Disk × Except DiskFault Unit :=
  match d.makeDirectory p with
  | .ok d' => (d', .ok ())
  | .error e => if d.isDirectory p then (d, .ok ()) else (d, .error (.refused e p))

/-- Makes a directory and those above it. Going up ends at the path without segments. -/
def makeDirectories (d : Disk) (root : String) : List String → Disk × Except DiskFault Unit
  | segments =>
    let p : FilePath := ⟨root, segments⟩
    match d.makeDirectory p with
    | .ok d' => (d', .ok ())
    | .error .noEntry =>
      if _h : segments = [] then (d, .error (.refused .noEntry p))
      else
        match d.makeDirectories root segments.dropLast with
        | (d', .ok ()) => d'.settleDirectory p
        | (d', .error f) => (d', .error f)
    | .error e => if d.isDirectory p then (d, .ok ()) else (d, .error (.refused e p))
termination_by segments => segments.length
decreasing_by
  rw [List.length_dropLast]
  exact Nat.sub_lt (List.length_pos_iff.2 _h) Nat.one_pos

def ensureDirectory (d : Disk) (p : FilePath) : Disk × Except DiskFault Unit :=
  if !p.isNameable then (d, .error .unnameable) else d.makeDirectories p.root p.segments

/-- Whether there is room for the fourteen bytes by which the name of a file under way is longer, in
the name and in the path that leads to it from the top of the disk. -/
def hasRoom (home : Place) (p : FilePath) : Bool :=
  let directory := p.parent.resolve home
  let path : FilePath := { directory with segments := directory.segments ++ [p.name] }
  p.name.utf8ByteSize + 14 ≤ 255 && path.text.utf8ByteSize + 14 ≤ 4095

/-- Writes a file as a whole, after making the directories above it. The text is written beside its
place and then moved there, which a step up at the end of the path does not allow. Answers the size
in bytes. -/
def writeText (d : Disk) (p : FilePath) (text : String) : Disk × Except DiskFault Nat :=
  match d.ensureDirectory p.parent with
  | (d, .error f) => (d, .error f)
  | (d, .ok ()) =>
    if !p.isNameable then (d, .error .unnameable)
    else if !hasRoom d.home p then (d, .error (.refused .nameTooLong p))
    else if p.name = ".." then (d, .error (.refused .busy p))
    else match d.locate p with
      | .error e => (d, .error (.refused e p))
      | .ok l =>
        match d.find? l with
        | some .directory => (d, .error (.refused .isDirectory p))
        | _ => (d.put l (.file text.toByteArray), .ok text.toByteArray.size)

def remove (d : Disk) (p : FilePath) : Disk × Except DiskFault Unit :=
  match d.locate p with
  | .error e => (d, .error (.refused e p))
  | .ok l =>
    match d.find? l with
    | some (.file _) => (d.drop l, .ok ())
    | some .directory => (d, .error (.refused .isDirectory p))
    | none => (d, .error (.refused .noEntry p))

def below? : Place → Place → Option Place
  | [], l => some l
  | a :: as, b :: bs => if a = b then below? as bs else none
  | _ :: _, [] => none

def contents (d : Disk) (l : Place) : List (Place × Entry) :=
  let found := d.entries.entries.filterMap fun (k, e) =>
    match below? l k with
    | some [] => none
    | some way => some (way, e)
    | none => none
  found.mergeSort fun a b => Place.atMost a.1 b.1

def search (d : Disk) (p : FilePath) (ending : String) : List (List String) :=
  match d.locate p with
  | .ok l => ((d.contents l).map (·.1)).filter fun way =>
      ending.toList.reverse.isPrefixOf ((way.getLast?.getD "").toList.reverse)
  | .error _ => []

/-- The first directory from a path on down whose path is too long for it to be looked into. -/
def unsearchable? (d : Disk) (p : FilePath) : Option FilePath :=
  if d.refuses p then some p
  else match d.locate p with
    | .ok l =>
      if d.find? l = some .directory then
        (d.contents l).findSome? fun (way, e) =>
          let below : FilePath := { p with segments := p.segments ++ way }
          if e = .directory ∧ below.fits = false then some below else none
      else none
    | .error _ => none

def listing (d : Disk) : List (String × Entry) :=
  ((d.contents d.home).map fun (way, e) => (String.intercalate "/" way, e)).mergeSort
    fun a b => a.1 ≤ b.1

end Disk
end HydraClient
