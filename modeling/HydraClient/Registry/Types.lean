import HydraClient.Failure
import HydraClient.Registry.TypeEntry

/-! # The type registry

Types by name, in order of registration, with an index from sources to names.
-/
namespace HydraClient

structure TypeRegistry where
  entries : OrderedMap String TypeEntry := .empty
  sources : OrderedMap String String := .empty

namespace TypeRegistry

instance : Inhabited TypeRegistry := ⟨{}⟩

def get? (r : TypeRegistry) (name : String) : Option TypeEntry := r.entries.get? name

def contains (r : TypeRegistry) (name : String) : Bool := r.entries.contains name

def names (r : TypeRegistry) : List String := r.entries.keys

def toList (r : TypeRegistry) : List TypeEntry := r.entries.values

def size (r : TypeRegistry) : Nat := r.entries.size

def lookupSource (r : TypeRegistry) (source : String) : Option TypeEntry :=
  (r.sources.get? source).bind r.get?

/-- A name belongs to the source that registered it first, which may replace its entry. -/
def register (r : TypeRegistry) (t : TypeEntry) : Except Failure TypeRegistry :=
  let taken := match r.get? t.name with
    | some held => if held.source = t.source then none else some held.source
    | none => none
  match taken with
  | some holder => .error (.nameTaken t.name holder t.source)
  | none => .ok {
      entries := r.entries.insert t.name t
      sources := match t.source with
        | some s => r.sources.insert s t.name
        | none => r.sources }

def getOrCreate (r : TypeRegistry) (source : String) (make : TypeEntry) :
    Except Failure (TypeRegistry × TypeEntry) :=
  match r.lookupSource source with
  | some t => .ok (r, t)
  | none =>
    let t := { make with source := some source }
    (r.register t).map fun r => (r, t)

def remove (r : TypeRegistry) (name : String) : TypeRegistry where
  entries := r.entries.erase name
  sources := match (r.get? name).bind (·.source) with
    | some s => r.sources.erase s
    | none => r.sources

/-- The first candidate that is free or belongs to the source already. -/
def resolveName (r : TypeRegistry) (candidates : List String) (source : String) :
    Except Failure String :=
  match candidates.find? fun c => (r.get? c).all fun t => t.source == some source with
  | some c => .ok c
  | none => .error (.noFreeName source candidates)

def modify (r : TypeRegistry) (name : String) (f : TypeEntry → TypeEntry) : TypeRegistry :=
  { r with entries := r.entries.modify name f }

def byFile (r : TypeRegistry) : OrderedMap String (List TypeEntry) :=
  (r.toList.filter (·.isRendered)).foldl (fun m t =>
    let file := t.file.getD ""
    m.insert file ((m.get? file).getD [] ++ [t])) .empty

end TypeRegistry
end HydraClient
