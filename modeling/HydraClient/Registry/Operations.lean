import HydraClient.Imports
import HydraClient.Metadata.Declaration
import HydraClient.OperationKind
import HydraClient.OrderedMap

/-! # The operation registry

One entry per served class, with one binding per symbol. A binding holds the operations of the
exposures under its symbol, and the endpoints of child resources.
-/
namespace HydraClient

structure Call where
  name : String
  kind : String
  method : String
  template : String
  path : String
  helper : String
  input : Option String := none
  output : Option String := none
  pathParams : List String := []
  isMultipart : Bool := false
  listParams : Option String := none
  security : Option String := none
  genericParams : Option (List String) := none
  deriving DecidableEq, Repr

structure ChildEndpoint where
  source : String
  symbol : String
  deriving DecidableEq, Repr

structure Binding where
  symbol : String
  name : String
  links : List Metadata.UriVariable := []
  calls : OrderedMap String Call := .empty
  children : OrderedMap String ChildEndpoint := .empty
  security : Option String := none
  securityPostDenormalize : Option String := none
  deriving DecidableEq, Repr

namespace Binding

/-- The call that identifiers are built from: the first that reads, else the first that lists. -/
def iriCall (b : Binding) : Option Call :=
  let ofKind (k : OperationKind) := b.calls.values.find? (·.kind == k.word)
  (ofKind .read).or (ofKind .list)

def isExposed (b : Binding) : Bool := !b.calls.isEmpty

end Binding

structure EndpointEntry where
  name : String
  source : String
  file : String
  bindings : OrderedMap String Binding := .empty
  imports : Imports := .empty
  deriving DecidableEq, Repr

namespace EndpointEntry

def firstBinding (e : EndpointEntry) : Option Binding := e.bindings.values.head?

/-- The key of the first binding that can build identifiers. -/
def iriKey (e : EndpointEntry) : Option String :=
  (e.bindings.entries.find? fun b => b.2.iriCall.isSome).map Prod.fst

def iriBinding (e : EndpointEntry) : Option Binding :=
  e.bindings.values.find? (·.iriCall.isSome)

def exposedKey (e : EndpointEntry) : Option String :=
  (e.bindings.entries.find? fun b => b.2.isExposed).map Prod.fst

def addImport (e : EndpointEntry) (file : Option String) (name : String) : EndpointEntry :=
  { e with imports := e.imports.addFrom file name }

end EndpointEntry

abbrev OperationRegistry := OrderedMap String EndpointEntry

namespace OperationRegistry

def getOrCreate (r : OperationRegistry) (source name file : String) :
    OperationRegistry × EndpointEntry :=
  match r.get? source with
  | some e => (r, e)
  | none =>
    let e : EndpointEntry := { name, source, file }
    (r.insert source e, e)

end OperationRegistry
end HydraClient
