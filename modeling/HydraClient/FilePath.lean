import HydraClient.Text.LetterCase

/-! # Path names

A path is written without empty and single-dot segments. Steps up are kept, since what they lead to
depends on the directory they start from.
-/
namespace HydraClient

structure FilePath where
  /-- The slashes an absolute path starts with: one, or exactly two. -/
  root : String := ""
  segments : List String := []
  deriving DecidableEq, Repr

namespace FilePath

instance : Inhabited FilePath := ⟨{}⟩

def isPlain (s : String) : Bool := s != "" && s != "."

def ofText (text : String) : FilePath where
  root :=
    let slashes := (text.toList.takeWhile (· == '/')).length
    if slashes = 0 then "" else if slashes = 2 then "//" else "/"
  segments := ((text.toList.splitOn '/').map String.ofList).filter isPlain

def isAbsolute (p : FilePath) : Bool := p.root != ""

def text (p : FilePath) : String :=
  if p.root = "" && p.segments.isEmpty then "."
  else p.root ++ String.intercalate "/" p.segments

def join (base p : FilePath) : FilePath :=
  if p.isAbsolute then p else { base with segments := base.segments ++ p.segments }

instance : HDiv FilePath String FilePath := ⟨fun p s => p.join (ofText s)⟩

def parent (p : FilePath) : FilePath := { p with segments := p.segments.dropLast }

def name (p : FilePath) : String := p.segments.getLast?.getD ""

/-- The last dot of the name and what follows it, unless the dot is first or last. -/
def suffix (p : FilePath) : String :=
  let cs := p.name.toList
  let tail := cs.reverse.takeWhile (· != '.')
  let dotAt := cs.length - tail.length
  if tail.isEmpty || dotAt ≤ 1 then "" else String.ofList ('.' :: tail.reverse)

/-- Whether a disk could hold what the path names. No name may have a NUL in it. -/
def isNameable (p : FilePath) : Bool := p.segments.all fun s => !s.toList.contains '\x00'

/-- The text of a path that is asked for has at most 4095 bytes. -/
def fits (p : FilePath) : Bool := p.text.utf8ByteSize ≤ 4095

/-- Follows steps up without looking at the directories. -/
def collapse (start : List String) (segments : List String) : List String :=
  segments.foldl (fun l s => if s = ".." then l.dropLast else l ++ [s]) start

def resolve (home : List String) (p : FilePath) : FilePath where
  root := if p.root = "//" then "//" else "/"
  segments := collapse (if p.isAbsolute then [] else home) p.segments

end FilePath
end HydraClient
