import HydraClient.BaseTypes
import HydraClient.Metadata.Config
import HydraClient.Metadata.Declaration
import HydraClient.Script
import HydraClient.SourceFile
import HydraClient.Text.Word
import HydraClient.Text.Words

/-! # Routes

Every route becomes a constant with its path, variables and defaults. Routes that differ only in
their locale form a family, which becomes one more constant. A hook may rename a constant, change
its settings or drop it.
-/
namespace HydraClient.Routes

open Metadata (Config Route)

def routesFile : String := "routes"

def routerFile : String := "Router"

/-- The text of a placeholder after its opening brace: at least one character, up to the next
closing brace, on one line. -/
def placeholder? : List Char → Option (List Char × List Char)
  | [] => none
  | c :: rest =>
    let inside := rest.takeWhile fun d => d != '\x7d' && d != '\n'
    if c = '\n' then none
    else match rest.drop inside.length with
      | '\x7d' :: after => some (c :: inside, after)
      | _ => none

def variableName (s : List Char) : List Char :=
  match s with
  | [] => []
  | c :: rest =>
    let head := c :: rest.takeWhile (· != '<')
    let tail := s.drop head.length
    if 2 < tail.length && tail.getLast? == some '>' then head else s

structure Shape where
  path : List Char := []
  vars : OrderedMap String Bool := .empty
  defaults : OrderedMap String Json := .empty

/-- Reads a path; a variable is required unless the route has a default for it. -/
def shapeFrom (defaults : OrderedMap String Json) : Nat → List Char → Shape → Shape
  | 0, s, acc => { acc with path := acc.path ++ s }
  | _ + 1, [], acc => acc
  | fuel + 1, c :: rest, acc =>
    let plain := fun _ : Unit => shapeFrom defaults fuel rest { acc with path := acc.path ++ [c] }
    if c = '\x7b' then
      match placeholder? rest with
      | some (inside, after) =>
        let name := String.ofList (variableName inside)
        let given := defaults.get? name
        shapeFrom defaults fuel after {
          path := acc.path ++ ['\x7b'] ++ variableName inside ++ ['\x7d']
          vars := acc.vars.insert name given.isNone
          defaults := match given with
            | some v => acc.defaults.insert name v
            | none => acc.defaults }
      | none => plain ()
    else plain ()

def shapeOf (r : Route) : Shape := shapeFrom r.defaults r.path.toList.length r.path.toList {}

def settings (r : Route) : List (String × Json) :=
  let s := shapeOf r
  [("name", .str r.name), ("path", .str (String.ofList s.path)),
    ("vars", .obj (s.vars.entries.map fun e => (e.1, .obj [("isRequired", .bool e.2)]))),
    ("defaults", .obj s.defaults.entries), ("meta", .obj [])]

def isLocalePart (s : List Char) : Bool := (s.length == 2 || s.length == 3) && s.all Text.isWord

def isLocale (s : List Char) : Bool :=
  isLocalePart s ||
    [2, 3].any fun k => isLocalePart (s.take k) && (s.drop k).head? == some '_' &&
      isLocalePart (s.drop (k + 1))

/-- The part of a name before the first dot that is followed by a locale, and the locale. The part
is not empty and on one line. -/
def localeSplit? (passed : List Char) : List Char → Option (List Char × List Char)
  | [] => none
  | c :: rest =>
    let locale := if rest.getLast? = some '\n' then rest.dropLast else rest
    if c = '.' && !passed.isEmpty && isLocale locale then some (passed.reverse, locale)
    else if c = '\n' then none
    else localeSplit? (c :: passed) rest

/-- The base name and the locale of a route that belongs to a family: its name ends in the locale
that it also requires. -/
def family? (r : Route) : Option (String × String) :=
  match localeSplit? [] r.name.toList with
  | none => none
  | some (base, locale) =>
    let locale := String.ofList locale
    if r.requirements.get? "_locale" = some locale then some (String.ofList base, locale) else none

structure Event where
  route : Route
  constant : String
  settings : List (String × Json)
  generate : Bool := true

abbrev Hook := Event → Event

def isReserved (c : Config) (name : String) : Bool :=
  c.reservedRouteStarts.any fun s => s.toList.isPrefixOf name.toList

def freeName (used : List String) (constant : String) : Nat → Nat → String
  | 0, suffix => constant ++ "_" ++ toString suffix
  | fuel + 1, suffix =>
    let candidate := constant ++ "_" ++ toString suffix
    if used.contains candidate then freeName used constant fuel (suffix + 1) else candidate

def uniqueName (used : List String) (constant : String) : String :=
  if used.contains constant then freeName used constant used.length 2 else constant

abbrev Family := OrderedMap String (List (String × Json))

structure Composition where
  used : List String := []
  lines : List String := []
  families : OrderedMap String Family := .empty

namespace Composition

def addConstant (c : Composition) (constant type : String) (value : List (String × Json)) :
    Except Failure Composition := do
  let name := uniqueName c.used constant
  let literal ← Script.literal (.obj value)
  pure { c with
    used := name :: c.used
    lines := c.lines ++ ["export const " ++ name ++ ": " ++ type ++ " = " ++ literal ++ ";"] }

def addRoute (hook : Hook) (c : Composition) (r : Route) : Except Failure Composition :=
  let e := hook ⟨r, Text.constantName r.name, settings r, true⟩
  if !e.generate then .ok c
  else
    let c := match family? r with
      | some (base, locale) =>
        { c with families :=
            c.families.insert base (((c.families.get? base).getD .empty).insert locale e.settings) }
      | none => c
    c.addConstant e.constant "RouteInterface" e.settings

/-- The path in the settings of a route. A hook may have taken it out. -/
def pathOf (settings : List (String × Json)) : Except Failure Json :=
  match Json.member? "path" settings with
  | some v => .ok v
  | none => .error (.keyAbsent "path")

/-- The settings of a family: those of the default locale or else of the first member, under the
base name and with the paths of all members. -/
def familySettings (defaultLocale base : String) (f : Family) :
    Except Failure (List (String × Json)) := do
  let first := f.values.head?.getD []
  let chosen := match f.get? defaultLocale with
    | some s => if s.isEmpty then first else s
    | none => first
  let paths ← f.entries.mapM fun e => return (e.1, ← pathOf e.2)
  pure (Json.put (Json.put chosen "name" (.str base)) "paths" (.obj paths))

def addFamily (defaultLocale : String) (c : Composition) (base : String) (f : Family) :
    Except Failure Composition := do
  let settings ← familySettings defaultLocale base f
  c.addConstant (Text.constantName base) "LocaleAwareRouteInterface" settings

end Composition

def compose (config : Config) (hook : Hook) (routes : List Route) :
    Except Failure (List String) := do
  let unreserved := routes.filter fun r => !isReserved config r.name
  let c ← unreserved.foldlM (fun c r => c.addRoute hook r) ({} : Composition)
  let c ← c.families.entries.foldlM (fun c e => c.addFamily config.defaultLocale e.1 e.2) c
  pure c.lines

def fragment? (lines : List String) : Option Fragment :=
  if lines.isEmpty then none
  else some {
    body := String.intercalate "\n" lines
    imports := (Imports.empty.add routerFile "RouteInterface").add routerFile
      "LocaleAwareRouteInterface" }

end HydraClient.Routes
