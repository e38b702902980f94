import HydraClient.ClassName
import HydraClient.Registry.Operations

/-! # Child endpoints

A binding below another class is offered on that class too, under the property that its link names.
The parent offers it on its first binding with a call. A key that is taken already is left alone.
-/
namespace HydraClient.Linking

structure Offer where
  parent : String
  key : String
  child : ChildEndpoint
  file : String
  deriving DecidableEq, Repr

/-- The offers of a binding; one without calls makes none. -/
def offersOf (e : EndpointEntry) (b : Binding) : List Offer :=
  if !b.isExposed then []
  else b.links.filterMap fun u =>
    match u.fromClass, u.fromProperty with
    | some c, some p =>
      if c = "" || p = "" then none
      else some ⟨ClassName.relative c, p, ⟨e.source, b.symbol⟩, e.file⟩
    | _, _ => none

def offers (r : OperationRegistry) : List Offer :=
  r.values.flatMap fun e => e.bindings.values.flatMap (offersOf e)

def accept (r : OperationRegistry) (o : Offer) : OperationRegistry × Bool :=
  match r.get? o.parent with
  | none => (r, false)
  | some target =>
    match target.exposedKey with
    | none => (r, false)
    | some symbol =>
      if (target.bindings.get? symbol).any (·.children.contains o.key) then (r, false)
      else
        let target := { target with
          bindings := target.bindings.modify symbol fun b =>
            { b with children := b.children.insert o.key o.child }
          imports := target.imports.add o.file o.child.symbol }
        (r.insert o.parent target, true)

/-- Takes up every offer in order and counts the new ones. -/
def link (r : OperationRegistry) : OperationRegistry × Nat :=
  (offers r).foldl (fun (r, n) o =>
    let (r, new) := accept r o
    (r, if new then n + 1 else n)) (r, 0)

end HydraClient.Linking
