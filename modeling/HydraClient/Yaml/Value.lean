import HydraClient.Json.Basic
import HydraClient.Yaml.Node.Merge
import HydraClient.Yaml.Node.Reader
import HydraClient.Yaml.Scalar

/-! # The value of a document

Nodes get their values breadth first: a collection is begun when it is met, and its parts are looked
at in the order in which the collections were begun. A value that leads back to itself ends there.
-/
namespace HydraClient.Yaml

/-- What has become of a node. The parts of collections are given by their places. -/
inductive Made where
  | scalar (s : Scalar)
  /-- A collection that is begun. -/
  | begun
  | items (ids : List Nat)
  | pairs (members : List (Nat × Nat))
  | keys (keys : List Scalar)
  | members (members : List (Scalar × Nat))

structure Build where
  graph : Graph
  made : Array (Option Made)
  /-- The collections that were begun, in order. -/
  begun : Array Nat := #[]

abbrev Building := StateT Build (Except Fault)

namespace Building

def setMade (id : Nat) (m : Made) : Building Unit :=
  modify fun b => { b with made := b.made.setIfInBounds id (some m) }

/-- Makes a scalar or begins a collection, unless that has been done. -/
def make (id : Nat) : Building Made := do
  let b ← get
  match b.made[id]?, b.graph[id]? with
  | some (some m), _ => return m
  | _, none => throw .malformed
  | _, some n =>
    match n.tag with
    | .seq | .map | .set | .omap | .pairs =>
      setMade id .begun
      modify fun b => { b with begun := b.begun.push id }
      return .begun
    | t =>
      let text ← b.graph.scalarText (b.graph.size + 1) id
      if t == .timestamp && !n.isScalar then throw .momentNotText
      let m := Made.scalar (← t.scalar text)
      setMade id m
      return m

/-- The members of a mapping, whose keys must be scalars. -/
def makeMembers (id : Nat) : Building (List (Scalar × Nat)) := do
  let b ← get
  match b.graph.content? id with
  | some (.mapping _) =>
    let graph ← b.graph.flatten id
    set { b with graph }
    (graph.members id).foldlM (fun ms (key, value) => do
      match ← make key with
      | .scalar k =>
        let _ ← make value
        return Scalar.put ms k value
      | _ => throw .malformed) []
  | _ => throw .malformed

def makePairs (items : List Nat) : Building (List (Nat × Nat)) :=
  items.mapM fun item => do
    match (← get).graph.content? item with
    | some (.mapping [(key, value)]) =>
      let _ ← make key
      let _ ← make value
      return (key, value)
    | _ => throw .malformed

def fill (id : Nat) : Building Unit := do
  let b ← get
  match b.graph[id]? with
  | none => throw .malformed
  | some n =>
    let m ← match n.tag, n.content with
      | .map, _ => Made.members <$> makeMembers id
      | .set, _ => (fun ms => Made.keys (ms.map Prod.fst)) <$> makeMembers id
      | .seq, .sequence items => do
        for item in items do
          let _ ← make item
        pure (Made.items items)
      | .omap, .sequence items => Made.pairs <$> makePairs items
      | .pairs, .sequence items => Made.pairs <$> makePairs items
      | _, _ => throw .malformed
    setMade id m

/-- Fills the collections from the given one on. Each is begun once. -/
def fillFrom : Nat → Nat → Building Unit
  | 0, _ => pure ()
  | fuel + 1, i => do
    match (← get).begun[i]? with
    | none => pure ()
    | some id =>
      fill id
      fillFrom fuel (i + 1)

end Building

/-- Values of nodes that do not lead back to themselves. -/
abbrev Known := Array (Option Json)

/-- Whether a value leads back to one that it stands in. -/
structure Reached where
  value : Json
  loops : Bool := false

/-- The value of a node, with the nodes around it. -/
def valueOf (made : Array (Option Made)) : Nat → List Nat → Nat → StateM Known Reached
  | 0, _, _ => return ⟨.loop, true⟩
  | fuel + 1, path, id => do
    if path.contains id then return ⟨.loop, true⟩
    if let some (some v) := (← get)[id]? then return ⟨v, false⟩
    let part := valueOf made fuel (id :: path)
    let r ← match made[id]?.join with
      | some (.scalar s) => pure ⟨s.toJson, false⟩
      | some (.items ids) => do
        let rs ← ids.mapM part
        pure ⟨.arr (rs.map (·.value)), rs.any (·.loops)⟩
      | some (.pairs ms) => do
        let rs ← ms.mapM fun m => return (← part m.1, ← part m.2)
        pure ⟨.arr (rs.map fun r => .arr [r.1.value, r.2.value]),
          rs.any fun r => r.1.loops || r.2.loops⟩
      | some (.keys keys) => pure ⟨.set keys, false⟩
      | some (.members ms) => do
        let rs ← ms.mapM fun m => return (m.1, ← part m.2)
        pure ⟨.ofMembers (rs.map fun r => (r.1, r.2.value)), rs.any (·.2.loops)⟩
      | _ => pure ⟨.null, false⟩
    if !r.loops then modify fun known => known.setIfInBounds id (some r.value)
    return r

def Graph.value (g : Graph) (root : Nat) : Except Fault Json := do
  let work : Building Unit := do
    let _ ← Building.make root
    Building.fillFrom (g.size + 1) 0
  let (_, b) ← work { graph := g, made := Array.replicate g.size none }
  let known : Known := Array.replicate g.size none
  return ((valueOf b.made (g.size + 1) [] root).run known).1.value

def parse (text : String) : Except Fault Json := do
  match ← Graph.ofText text with
  | (_, none) => return .null
  | (g, some root) => g.value root

end HydraClient.Yaml
