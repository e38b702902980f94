import HydraClient.Yaml.Fault
import HydraClient.Yaml.Node

/-! # Special keys

A merge key brings the members of other mappings into its own. They stand before the members that
the mapping has itself, which override them. A value key is a plain key of the mapping, and lets the
mapping stand where a scalar is wanted.
-/
namespace HydraClient.Yaml.Graph

def mergeCount (g : Graph) : Nat :=
  g.foldl (fun n node =>
    match node.content with
    | .mapping ms => n + (ms.filter fun m => g.hasTag .merge m.1).length
    | _ => n) 0

/-- Takes the merge keys out of a mapping, one after the other, and puts what they bring in before
the other members. Of a list of mappings the first one wins. Fuel bounds the merge keys. -/
def flattenFrom : Nat → Nat → List (Nat × Nat) → Graph → Except Fault Graph
  | 0, _, _, _ => .error .malformed
  | fuel + 1, id, merged, g =>
    let ms := g.members id
    match ms.findIdx? fun m => g.hasTag .merge m.1 with
    | none =>
      let g := g.setContent id (.mapping (merged ++ ms))
      .ok (ms.foldl (fun g m => if g.hasTag .value m.1 then g.setTag .str m.1 else g) g)
    | some i => do
      let g := g.setContent id (.mapping (ms.eraseIdx i))
      let source := (ms[i]?.map Prod.snd).getD id
      match g.content? source with
      | some (.mapping _) =>
        let g ← flattenFrom fuel source [] g
        flattenFrom fuel id (merged ++ g.members source) g
      | some (.sequence items) =>
        let (g, groups) ← items.foldlM (fun ((g, groups) : Graph × List (List (Nat × Nat))) item =>
          match g.content? item with
          | some (.mapping _) => do
            let g ← flattenFrom fuel item [] g
            pure (g, g.members item :: groups)
          | _ => throw .malformed) (g, [])
        flattenFrom fuel id (merged ++ groups.flatten) g
      | _ => throw .malformed

def flatten (g : Graph) (id : Nat) : Except Fault Graph :=
  flattenFrom (g.mergeCount + 1) id [] g

/-- The text of a node that is wanted as a scalar. A mapping gives the one of its value key. -/
def scalarText (g : Graph) : Nat → Nat → Except Fault String
  | 0, _ => .error .malformed
  | fuel + 1, id =>
    match g.content? id with
    | some (.scalar s) => .ok s
    | some (.mapping ms) =>
      match ms.find? fun m => g.hasTag .value m.1 with
      | some m => scalarText g fuel m.2
      | none => .error .malformed
    | _ => .error .malformed

end HydraClient.Yaml.Graph
