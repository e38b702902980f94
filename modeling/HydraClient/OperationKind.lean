import HydraClient.Failure
import HydraClient.Metadata.Declaration
import HydraClient.Text.LetterCase

/-! # Kinds of operations

The declared type of an operation decides its kind, and otherwise its HTTP method does.
-/
namespace HydraClient

inductive OperationKind where
  | list
  | read
  | create
  | update
  | replace
  | remove
  deriving DecidableEq, Repr

namespace OperationKind

open Metadata (Operation)

def all : List OperationKind := [list, read, create, update, replace, remove]

def word : OperationKind → String
  | list => "list"
  | read => "read"
  | create => "create"
  | update => "update"
  | replace => "replace"
  | remove => "remove"

def ofType? : String → Option OperationKind
  | "GetCollection" => some list
  | "Get" => some read
  | "Put" => some replace
  | "Patch" => some update
  | "Post" => some create
  | "Delete" => some remove
  | _ => none

def ofMethod? : String → Option OperationKind
  | "GET" => some read
  | "POST" => some create
  | "PUT" => some replace
  | "PATCH" => some update
  | "DELETE" => some remove
  | _ => none

/-- Kinds that address a collection, and so need no identifier. -/
def isCollection : OperationKind → Bool
  | list | create => true
  | _ => false

/-- Kinds whose helpers append the identifier to the path themselves. -/
def takesIdentifier : OperationKind → Bool
  | read | update | replace => true
  | _ => false

def ofOperation (o : Operation) : Except Failure OperationKind :=
  match o.type.bind ofType? with
  | some k => .ok k
  | none =>
    match ofMethod? (Text.upper o.method) with
    | some k => .ok k
    | none => .error (.operationUnknown o.type o.method o.name)

/-- A name of its own wins over the kind, unless it is a generated one. -/
def nameOf (o : Operation) (k : OperationKind) : String :=
  match o.name with
  | some n => if n = "" || n.startsWith "_api_" then k.word else n
  | none => k.word

end OperationKind
end HydraClient
