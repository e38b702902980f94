import HydraClient.Yaml.Tag

/-! # Nodes of YAML

A document is a graph of nodes, which refer to each other by their places. A node may stand in
several places and may hold itself.
-/
namespace HydraClient.Yaml

inductive Content where
  | scalar (text : String)
  | sequence (items : List Nat)
  | mapping (members : List (Nat × Nat))
  deriving DecidableEq, Repr

structure Node where
  tag : Tag
  content : Content
  deriving DecidableEq, Repr

def Node.isScalar (n : Node) : Bool :=
  match n.content with
  | .scalar _ => true
  | _ => false

abbrev Graph := Array Node

namespace Graph

def content? (g : Graph) (id : Nat) : Option Content := g[id]?.map (·.content)

def hasTag (g : Graph) (t : Tag) (id : Nat) : Bool := g[id]?.any (·.tag == t)

/-- The members of a mapping; other nodes have none. -/
def members (g : Graph) (id : Nat) : List (Nat × Nat) :=
  match g.content? id with
  | some (.mapping ms) => ms
  | _ => []

def setContent (g : Graph) (id : Nat) (c : Content) : Graph :=
  g.modify id fun n => { n with content := c }

def setTag (g : Graph) (t : Tag) (id : Nat) : Graph := g.modify id fun n => { n with tag := t }

end Graph
end HydraClient.Yaml
