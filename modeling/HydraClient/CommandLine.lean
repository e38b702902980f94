import HydraClient.Pipeline

/-! # The command line

Long options may be shortened while they stay unambiguous, short ones may be joined, and a value
may follow its option directly. A wrong argument ends the program before anything is read.
-/
namespace HydraClient.CommandLine

inductive Flag where
  | help
  | version
  | metadata
  | output
  | apiPrefix
  | dryRun
  | verbose
  | quiet
  deriving DecidableEq, Repr

namespace Flag

def takesValue : Flag → Bool
  | metadata | output | apiPrefix => true
  | _ => false

def excludes : Flag → Flag → Bool
  | verbose, quiet | quiet, verbose => true
  | _, _ => false

end Flag

def spellings : List (String × Flag) :=
  [("-h", .help), ("--help", .help), ("--version", .version), ("-m", .metadata),
    ("--metadata", .metadata), ("-o", .output), ("--output", .output),
    ("--api-prefix", .apiPrefix), ("--dry-run", .dryRun), ("-v", .verbose),
    ("--verbose", .verbose), ("-q", .quiet), ("--quiet", .quiet)]

def flag? (s : String) : Option Flag := (spellings.find? (·.1 == s)).map Prod.snd

/-- What stands with an option in its argument. A text is joined to a short option, with or without
an equals sign between them, and assigned to a long one. -/
inductive Attached where
  | nothing
  | joined (text : String)
  | assigned (text : String)
  deriving DecidableEq, Repr

inductive Argument where
  | plain (text : String)
  | separator
  | option (flag : Flag) (attached : Attached)
  | unknown (text : String)
  deriving DecidableEq, Repr

def splitEquals (s : String) : String × Option String :=
  let head := s.toList.takeWhile (· != '=')
  match s.toList.drop head.length with
  | [] => (s, none)
  | _ :: tail => (String.ofList head, some (String.ofList tail))

def isLong (s : String) : Bool := s.startsWith "--"

def attach (spelling text : String) : Attached :=
  if isLong spelling then .assigned text else .joined text

/-- The options that an argument may stand for that spells none of them out: a long one by its
start, and a short one with a text joined to it. -/
def expansions (s : String) : List Argument :=
  if isLong s then
    let (start, value) := splitEquals s
    (spellings.filter fun e => start.toList.isPrefixOf e.1.toList).map fun e =>
      .option e.2 (value.elim .nothing .assigned)
  else
    let short := String.ofList (s.toList.take 2)
    let tail := String.ofList (s.toList.drop 2)
    (spellings.filter (·.1 == short)).map fun e => .option e.2 (.joined tail)

def isNegativeNumber (s : String) : Bool :=
  match s.toList with
  | '-' :: ds =>
    let whole := ds.takeWhile Char.isDigit
    match ds.drop whole.length with
    | [] => !whole.isEmpty
    | '.' :: fraction => !fraction.isEmpty && fraction.all Char.isDigit
    | _ => false
  | _ => false

/-- Classifies an argument. More than one expansion is an error. -/
def classify (s : String) : Option Argument :=
  if !s.startsWith "-" then some (.plain s)
  else match flag? s with
    | some f => some (.option f .nothing)
    | none =>
      if s = "-" then some (.plain s)
      else
        let (head, value) := splitEquals s
        match value, flag? head with
        | some v, some f => some (.option f (attach head v))
        | _, _ =>
          match expansions s with
          | [a] => some a
          | _ :: _ => none
          | [] =>
            if isNegativeNumber s || s.toList.contains ' ' then some (.plain s)
            else some (.unknown s)

def classifyAll : List String → Option (List Argument)
  | [] => some []
  | "--" :: rest => some (.separator :: rest.map .plain)
  | s :: rest => do
    let a ← classify s
    let more ← classifyAll rest
    pure (a :: more)

/-- What an option is given. The separator counts as nothing, even as an option's own text. -/
inductive Given where
  | nothing
  | text (text : String)
  deriving DecidableEq, Repr

namespace Given

def ofText (s : String) : Given := if s = "--" then .nothing else .text s

def text? : Given → Option String
  | nothing => none
  | text s => some s

end Given

structure Arguments where
  metadata : Option Given := none
  output : Option Given := none
  apiPrefix : Option Given := none
  dryRun : Bool := false
  quiet : Bool := false
  seen : List Flag := []
  /-- Whether an argument was met that belongs nowhere. -/
  strays : Bool := false
  deriving DecidableEq, Repr

inductive Ending where
  | wrong
  | version
  | help
  deriving DecidableEq, Repr

namespace Arguments

def take (a : Arguments) (f : Flag) (value : String) : Except Ending Arguments :=
  if a.seen.any f.excludes then .error .wrong
  else
    let a := { a with seen := f :: a.seen }
    match f with
    | .help => .error .help
    | .version => .error .version
    | .metadata => .ok { a with metadata := some (.ofText value) }
    | .output => .ok { a with output := some (.ofText value) }
    | .apiPrefix => .ok { a with apiPrefix := some (.ofText value) }
    | .dryRun => .ok { a with dryRun := true }
    | .verbose => .ok a
    | .quiet => .ok { a with quiet := true }

def takeFlags (a : Arguments) (flags : List Flag) : Except Ending Arguments :=
  flags.foldlM (·.take · "") a

def takeAll (a : Arguments) (before : List Flag) (last : Flag) (value : String) :
    Except Ending Arguments := do
  (← a.takeFlags before).take last value

end Arguments

/-- What an option argument stands for: flags first, and then the option that the argument ends in,
with its value if the argument has one. -/
structure Cluster where
  before : List Flag := []
  last : Flag
  own : Option String := none
  deriving DecidableEq, Repr

/-- Takes apart what is joined to a short option: its value if it takes one, and otherwise another
short option with what is joined to that one. -/
def unjoin (f : Flag) (tail : List Char) : Option Cluster :=
  if f.takesValue then some { last := f, own := some (String.ofList tail) }
  else match tail with
    | [] => none
    | c :: rest =>
      match flag? (String.ofList ['-', c]), rest with
      | none, _ => none
      | some g, [] => some { before := [f], last := g }
      | some g, rest => (unjoin g rest).map fun c => { c with before := f :: c.before }

/-- Takes an option argument apart. Nothing may be assigned to a long flag. -/
def cluster? (f : Flag) : Attached → Option Cluster
  | .nothing => some { last := f }
  | .assigned v => if f.takesValue then some { last := f, own := some v } else none
  | .joined tail => unjoin f tail.toList

def readArguments : List Argument → Arguments → Except Ending Arguments
  | [], a => .ok a
  | .option f attached :: rest, a =>
    match cluster? f attached with
    | none => .error .wrong
    | some ⟨before, last, own⟩ =>
      match last.takesValue, own with
      | false, _ =>
        match a.takeAll before last "" with
        | .ok a => readArguments rest a
        | .error e => .error e
      | true, some v =>
        match a.takeAll before last v with
        | .ok a => readArguments rest a
        | .error e => .error e
      | true, none =>
        match rest with
        | .plain v :: later =>
          match a.takeAll before last v with
          | .ok a => readArguments later a
          | .error e => .error e
        | _ => .error .wrong
  | _ :: rest, a => readArguments rest { a with strays := true }

/-- The arguments of a call, in which the metadata file must be named and nothing left over. -/
def parse (args : List String) : Except Ending Arguments :=
  match classifyAll args with
  | none => .error .wrong
  | some classified => do
    let a ← readArguments classified {}
    if a.metadata.isNone || a.strays then throw .wrong
    pure a

/-- Exit codes: success, invalid metadata, failed generation, unwritten files, wrong input. -/
inductive ExitCode where
  | success
  | invalidMetadata
  | generationFailed
  | writeFailed
  | wrongInput
  deriving DecidableEq, Repr

def ExitCode.number : ExitCode → Nat
  | success => 0
  | invalidMetadata => 1
  | generationFailed => 2
  | writeFailed => 3
  | wrongInput => 4

def codeOf (r : Report) : ExitCode :=
  if !r.errors.isEmpty then .invalidMetadata
  else if r.failure.isSome then .generationFailed
  else if !r.writeErrors.isEmpty then .writeFailed
  else .success

structure Answer where
  code : ExitCode
  output : String := ""
  deriving DecidableEq, Repr

def versionLine : String := "APIGen-TS v0.1.0\n"

def settings (a : Arguments) : List (String × Json) :=
  match a.apiPrefix with
  | some (.text p) => [("api_prefix", .str p)]
  | some .nothing => [("api_prefix", .arr [])]
  | none => []

def isInputFailure (f : Failure) : Bool :=
  f.diagnostic?.any fun d => d.category == .metadataLoad

def placeOf (home : List String) (text : String) : Except Failure FilePath :=
  let p := FilePath.ofText text
  if p.isNameable then .ok (p.resolve home) else .error .unnameable

def Arguments.source (a : Arguments) (home : List String) : Except Failure FilePath :=
  match a.metadata.bind Given.text? with
  | none => .error .sourceUnnamed
  | some m => placeOf home m

/-- The output directory that takes the place of the document's. An empty text names none. -/
def Arguments.target (a : Arguments) (home : List String) : Except Failure (Option FilePath) :=
  ((a.output.bind Given.text?).filter (· != "")).mapM (placeOf home)

/-- What a run reads or changes besides the metadata file. -/
def Arguments.reach (a : Arguments) (source : FilePath) (disk : Disk) : List FilePath :=
  match Metadata.loadDocument disk source (settings a), a.target disk.home with
  | .ok d, .ok target =>
    target.getD (.ofText d.config.outputDir) ::
      (d.config.apiMethodsSource.map FilePath.ofText).toList
  | _, _ => []

def answerOf (a : Arguments) : Except Failure Report → Except Failure Answer
  | .ok r => .ok ⟨codeOf r, if a.quiet then "" else r.summary ++ "\n"⟩
  | .error f => if isInputFailure f then .ok ⟨.wrongInput, ""⟩ else .error f

def runArguments (a : Arguments) (clock : Timestamp) (disk : Disk) :
    Disk × Except Failure Answer :=
  match a.source disk.home with
  | .error f => (disk, .error f)
  | .ok source =>
    if disk.refuses source then (disk, .error (.nameTooLong source))
    else if !disk.isFile source then (disk, .ok ⟨.wrongInput, ""⟩)
    else match a.target disk.home with
      | .error f => (disk, .error f)
      | .ok target =>
        let options : Options := { dryRun := a.dryRun, clock }
        (Pipeline.generateFile source (settings a) target options disk).map id (answerOf a)

def run (args : List String) (clock : Timestamp) (disk : Disk) : Disk × Except Failure Answer :=
  match parse args with
  | .error .wrong => (disk, .ok ⟨.wrongInput, ""⟩)
  | .error .version => (disk, .ok ⟨.success, versionLine⟩)
  | .error .help => (disk, .ok ⟨.success, ""⟩)
  | .ok a => runArguments a clock disk

end HydraClient.CommandLine
