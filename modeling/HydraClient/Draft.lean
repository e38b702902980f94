import HydraClient.Registry.Operations
import HydraClient.Registry.Types
import HydraClient.SourceFile

/-! # Drafts

Everything that one run builds before files are put together. Work on a draft may fail half-way,
and then keeps what it did before.
-/
namespace HydraClient

structure Draft where
  types : TypeRegistry := {}
  operations : OperationRegistry := .empty
  files : FileSet := .empty

abbrev Drafting := ExceptT Failure (StateM Draft)

namespace Drafting

def setTypes (r : TypeRegistry) : Drafting Unit := modify fun d => { d with types := r }

def setOperations (r : OperationRegistry) : Drafting Unit :=
  modify fun d => { d with operations := r }

def register (t : TypeEntry) : Drafting Unit := do
  setTypes (← (← get).types.register t)

def modifyType (name : String) (f : TypeEntry → TypeEntry) : Drafting Unit :=
  modify fun d => { d with types := d.types.modify name f }

def modifyEntry (source : String) (f : EndpointEntry → EndpointEntry) : Drafting Unit :=
  modify fun d => { d with operations := d.operations.modify source f }

def addFragment (file : String) (f : Fragment) : Drafting Unit :=
  modify fun d => { d with files := d.files.add file f }

end Drafting
end HydraClient
