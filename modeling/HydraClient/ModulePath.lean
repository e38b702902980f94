import HydraClient.Imports
import HydraClient.Json.Printer

/-! # Module specifiers

Output files are named by paths without an extension, relative to the output directory. An import
names its file relative to the directory of the importing file, starting with one dot or two.
-/
namespace HydraClient.ModulePath

def splitPath (path : String) : List String := (path.toList.splitOn '/').map String.ofList

/-- The part before the last slash, without slashes at its end unless it is all slashes. -/
def directory (path : String) : String :=
  let head := path.toList.reverse.dropWhile (· != '/')
  let stripped := head.dropWhile (· == '/')
  String.ofList (if stripped.isEmpty then head else stripped).reverse

def baseName (path : String) : String :=
  String.ofList (path.toList.reverse.takeWhile (· != '/')).reverse

/-- Follows segments from a directory, each of them down or, for two dots, up. At the top, two dots
lead nowhere. -/
def resolve (start : List String) (segments : List String) : List String :=
  segments.foldl (fun here s =>
    if s = "" ∨ s = "." then here else if s = ".." then here.dropLast else here ++ [s]) start

def locate (home : List String) (path : String) : List String :=
  if path.startsWith "/" then resolve [] (splitPath path) else resolve home (splitPath path)

def commonLength : List String → List String → Nat
  | a :: as, b :: bs => if a = b then commonLength as bs + 1 else 0
  | _, _ => 0

def route (source target : List String) : List String :=
  let n := commonLength source target
  List.replicate (source.length - n) ".." ++ target.drop n

/-- Paths are compared from a common place deep enough for every step up that occurs in them. -/
def home (paths : List String) : List String :=
  let ups := (paths.map fun p => (splitPath p).count "..").foldl max 0
  (List.range ups).map fun i => "/" ++ toString i

def specifier (current target : String) : String :=
  let orDot (s : String) := if s = "" then "." else s
  let currentDir := orDot (directory current)
  let targetDir := orDot (directory target)
  let base := baseName target
  let h := home [currentDir, targetDir]
  match route (locate h currentDir) (locate h targetDir) with
  | [] => "./" ++ base
  | steps =>
    let way := String.intercalate "/" steps
    if way.startsWith ".." then way ++ "/" ++ base else "./" ++ way ++ "/" ++ base

/-- One import statement per file, in order. The importing file itself is left out, and so are
files from which no name is taken. -/
def importBlock (current : String) (imports : Imports) : String :=
  let lines := imports.toList.filterMap fun (target, names) =>
    if target = current || names.isEmpty then none
    else some ("import \x7b " ++ String.intercalate ", " names.toList ++ " \x7d from " ++
      Json.quote (specifier current target) ++ ";")
  String.intercalate "\n" lines

end HydraClient.ModulePath
