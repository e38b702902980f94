import HydraClient.Yaml.Node
import HydraClient.Yaml.Token.Lexer

/-! # Reading nodes

The tokens of a text with one document become its graph. Where a key or value is left out, an empty
scalar stands. Fuel bounds the steps between two tokens.
-/
namespace HydraClient.Yaml

structure Reader where
  tokens : List Token
  nodes : Graph := #[]
  anchors : List (String × Nat) := []
  handles : List (String × String) := Tag.handles

abbrev Reading := StateT Reader (Except Fault)

/-- Where a node stands. The key or value of a block mapping may be a sequence that is not
indented, and no block may stand in brackets. -/
inductive Place where
  | block
  | blockMember
  | flow
  deriving DecidableEq, Repr

namespace Reading

def stuck {α : Type} : Reading α := throw .malformed

/-- The next token. A fault of the text shows when it is looked at. -/
def peek : Reading (Option Token) := do
  match (← get).tokens with
  | .fault f :: _ => throw f
  | t :: _ => return some t
  | [] => return none

def skip : Reading Unit := modify fun r => { r with tokens := r.tokens.tail }

def comes (ts : List Token) : Reading Bool := return (← peek).any ts.contains

def take (t : Token) : Reading Bool := do
  let found ← comes [t]
  if found then skip
  return found

def require (t : Token) : Reading Unit := do
  if !(← take t) then stuck

/-- Adds a node. An anchor is given once. -/
def add (anchor : Option String) (n : Node) : Reading Nat := do
  let r ← get
  let id := r.nodes.size
  match anchor with
  | none => set { r with nodes := r.nodes.push n }
  | some a =>
    if r.anchors.any (·.1 == a) then throw .malformed
    set { r with nodes := r.nodes.push n, anchors := (a, id) :: r.anchors }
  return id

def anchored (name : String) : Reading Nat := do
  match (← get).anchors.find? (·.1 == name) with
  | some (_, id) => return id
  | none => throw .malformed

def tagName (handle : Option String) (text : String) : Reading String := do
  match handle with
  | none => return text
  | some h =>
    match (← get).handles.find? (·.1 == h) with
    | some (_, start) => return start ++ text
    | none => throw .malformed

def properties : Reading (Option String × Option String) := do
  match ← peek with
  | some (.anchor a) =>
    skip
    match ← peek with
    | some (.tag handle text) =>
      skip
      return (some a, some (← tagName handle text))
    | _ => return (some a, none)
  | some (.tag handle text) =>
    skip
    match ← peek with
    | some (.anchor a) =>
      skip
      return (some a, some (← tagName handle text))
    | _ => return (none, some (← tagName handle text))
  | _ => return (none, none)

/-- A scalar. The lone mark has the text looked at as if it were plain, and other text than plain
has no kind but its own. -/
def addScalar (anchor tag : Option String) (text : String) (isPlain : Bool) : Reading Nat :=
  let t : Tag := match tag with
    | none => if isPlain then .ofPlain text else .str
    | some name => if name = "!" then .ofPlain text else .ofName name
  add anchor ⟨t, .scalar text⟩

def addEmpty : Reading Nat := addScalar none none "" true

def addCollection (anchor tag : Option String) (default : Tag) (read : Reading Content) :
    Reading Nat := do
  let t := match tag with
    | some name => if name = "!" then default else .ofName name
    | none => default
  let id ← add anchor ⟨t, .sequence []⟩
  let content ← read
  modify fun r => { r with nodes := r.nodes.setContent id content }
  return id

mutual

def node : Nat → Place → Reading Nat
  | 0, _ => stuck
  | fuel + 1, place => do
    if let some (.alias name) := ← peek then
      skip
      return ← anchored name
    let (anchor, tag) ← properties
    let hasProperties := anchor.isSome || tag.isSome
    match ← peek, place with
    | some .blockEntry, .blockMember => addCollection anchor tag .seq (looseItems fuel [])
    | some (.scalar text isPlain), _ =>
      skip
      addScalar anchor tag text isPlain
    | some .flowSequence, _ =>
      skip
      addCollection anchor tag .seq (flowItems fuel true [])
    | some .flowMapping, _ =>
      skip
      addCollection anchor tag .map (flowMembers fuel true [])
    | some .blockSequence, .block | some .blockSequence, .blockMember =>
      skip
      addCollection anchor tag .seq (blockItems fuel [])
    | some .blockMapping, .block | some .blockMapping, .blockMember =>
      skip
      addCollection anchor tag .map (blockMembers fuel [])
    | _, _ => if hasProperties then addScalar anchor tag "" (tag.isNone) else stuck

def nodeUnless : Nat → Place → List Token → Reading Nat
  | 0, _, _ => stuck
  | fuel + 1, place, stops => do
    if ← comes stops then addEmpty else node fuel place

def memberValue : Nat → Place → List Token → Reading Nat
  | 0, _, _ => stuck
  | fuel + 1, place, stops => do
    if ← take .value then nodeUnless fuel place stops else addEmpty

def blockItems : Nat → List Nat → Reading Content
  | 0, _ => stuck
  | fuel + 1, acc => do
    if ← take .blockEntry then
      let item ← nodeUnless fuel .block [.blockEntry, .blockEnd]
      blockItems fuel (item :: acc)
    else
      require .blockEnd
      return .sequence acc.reverse

/-- Items that are not indented end where no further one follows. -/
def looseItems : Nat → List Nat → Reading Content
  | 0, _ => stuck
  | fuel + 1, acc => do
    if ← take .blockEntry then
      let item ← nodeUnless fuel .block [.blockEntry, .key, .value, .blockEnd]
      looseItems fuel (item :: acc)
    else return .sequence acc.reverse

def blockMembers : Nat → List (Nat × Nat) → Reading Content
  | 0, _ => stuck
  | fuel + 1, acc => do
    if ← take .key then
      let key ← nodeUnless fuel .blockMember [.key, .value, .blockEnd]
      let value ← memberValue fuel .blockMember [.key, .value, .blockEnd]
      blockMembers fuel ((key, value) :: acc)
    else
      require .blockEnd
      return .mapping acc.reverse

/-- Items between brackets. A key among them starts a mapping of one member. -/
def flowItems : Nat → Bool → List Nat → Reading Content
  | 0, _, _ => stuck
  | fuel + 1, first, acc => do
    if ← take .flowSequenceEnd then return .sequence acc.reverse
    if !first then require .flowEntry
    if ← take .flowSequenceEnd then return .sequence acc.reverse
    let item ←
      if ← take .key then addCollection none none .map (flowPair fuel) else node fuel .flow
    flowItems fuel false (item :: acc)

def flowPair : Nat → Reading Content
  | 0 => stuck
  | fuel + 1 => do
    let key ← nodeUnless fuel .flow [.value, .flowEntry, .flowSequenceEnd]
    let value ← memberValue fuel .flow [.flowEntry, .flowSequenceEnd]
    return .mapping [(key, value)]

/-- Members between braces. A node without the mark of a key has no value. -/
def flowMembers : Nat → Bool → List (Nat × Nat) → Reading Content
  | 0, _, _ => stuck
  | fuel + 1, first, acc => do
    if ← take .flowMappingEnd then return .mapping acc.reverse
    if !first then require .flowEntry
    if ← take .flowMappingEnd then return .mapping acc.reverse
    let member ←
      if ← take .key then
        let key ← nodeUnless fuel .flow [.value, .flowEntry, .flowMappingEnd]
        let value ← memberValue fuel .flow [.flowEntry, .flowMappingEnd]
        pure (key, value)
      else
        let key ← node fuel .flow
        pure (key, ← addEmpty)
    flowMembers fuel false (member :: acc)

end

/-- Takes the directives before a document: one version at most, and each handle once. -/
def directives : Nat → Bool → List (String × String) → Reading Unit
  | 0, _, _ => stuck
  | fuel + 1, versioned, handles => do
    match ← peek with
    | some (.directive (.version major)) =>
      if versioned || major != 1 then throw .malformed
      skip
      directives fuel true handles
    | some (.directive (.handle name start)) =>
      if handles.any (·.1 == name) then throw .malformed
      skip
      directives fuel versioned ((name, start) :: handles)
    | some (.directive .other) =>
      skip
      directives fuel versioned handles
    | _ => modify fun r => { r with handles := handles ++ Tag.handles }

def isOutside : Option Token → Bool
  | some (.directive _) => true
  | some .documentStart => true
  | some .documentEnd => true
  | some .textEnd => true
  | _ => false

def finish : Nat → Reading Unit
  | 0 => stuck
  | fuel + 1 => do
    if ← take .documentEnd then finish fuel else require .textEnd

/-- The root of the only document, if there is one. -/
def document (fuel : Nat) : Reading (Option Nat) := do
  let first ← peek
  if first == some .textEnd then return none
  let opened := isOutside first && first != some .documentEnd
  if opened then
    directives fuel false []
    require .documentStart
  let root ← if opened && isOutside (← peek) then addEmpty else node fuel .block
  finish fuel
  return some root

end Reading

/-- The graph of a text and its root. An empty text has none. -/
def Graph.ofText (text : String) : Except Fault (Graph × Option Nat) :=
  let tokens := Token.ofText text
  match Reading.document (4 * tokens.length + 8) { tokens } with
  | .ok (root, r) => .ok (r.nodes, root)
  | .error f => .error f

end HydraClient.Yaml
