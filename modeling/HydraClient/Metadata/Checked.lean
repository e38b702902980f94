import HydraClient.Json.Basic
import HydraClient.Text.Digit
import HydraClient.Text.Quoted

/-! # Located issues

Reading a document does not stop at its first fault. Every part is read, and the issues are
collected in the order of the parts, each with the way that leads to it.
-/
namespace HydraClient.Metadata

inductive Step where
  | member (name : String)
  | item (index : Int)
  deriving DecidableEq, Repr

inductive Objection where
  | fieldTwice (className field : String)
  | pageTooLarge (size maximum : Int)
  | notAbsolute (url : String)
  | bracketMisplaced
  | futureHost
  | dottedHost
  | hostNotNumeric (host : String)
  | hostInTwoWays (host : String)
  deriving DecidableEq, Repr

def Objection.message : Objection → String
  | .fieldTwice c f => s!"Class '{c}' declares field '{f}' twice."
  | .pageTooLarge n m =>
    if Text.isOverlong n || Text.isOverlong m then Text.digitLimit
    else s!"items_per_page ({n}) must be <= maximum_items_per_page ({m})."
  | .notAbsolute url => s!"api_base_url must be an absolute URL, got '{url}'"
  | .bracketMisplaced => "Invalid IPv6 URL"
  | .futureHost => "IPvFuture address is invalid"
  | .dottedHost => "An IPv4 address cannot be in brackets"
  | .hostNotNumeric host =>
    Text.quoted host ++ " does not appear to be an IPv4 or IPv6 address"
  | .hostInTwoWays host =>
    s!"netloc '{host}' contains invalid characters under NFKC normalization"

inductive Fault where
  | missing
  | unknownMember
  | stringExpected
  | stringTooShort
  | truthExpected
  | truthUnreadable
  | intExpected
  | intUnreadable
  | intFraction
  | intTooLong
  | notFinite
  | tooSmall
  | listExpected
  | mapExpected
  | recordExpected
  | choiceExpected
  | stringUnreadable
  | keyInvalid
  /-- A value that holds itself. -/
  | endless
  | refused (objection : Objection)
  deriving DecidableEq, Repr

structure Issue where
  location : List Step
  fault : Fault
  deriving DecidableEq, Repr

inductive Checked (α : Type) where
  | valid (value : α)
  | invalid (issues : List Issue)

namespace Checked

variable {α β : Type}

def map (f : α → β) : Checked α → Checked β
  | valid a => valid (f a)
  | invalid is => invalid is

/-- Both parts are read, and the issues of the first come first. -/
def ap : Checked (α → β) → Checked α → Checked β
  | valid f, valid a => valid (f a)
  | valid _, invalid is => invalid is
  | invalid is, valid _ => invalid is
  | invalid is, invalid js => invalid (is ++ js)

instance : Applicative Checked where
  pure := valid
  map := map
  seq f a := ap f (a ())

/-- A check that runs only on a value free of issues. -/
def andThen : Checked α → (α → Checked β) → Checked β
  | valid a, f => f a
  | invalid is, _ => invalid is

def under (s : Step) : Checked α → Checked α
  | valid a => valid a
  | invalid is => invalid (is.map fun i => { i with location := s :: i.location })

def fail (fault : Fault) : Checked α := invalid [⟨[], fault⟩]

def toExcept : Checked α → Except (List Issue) α
  | valid a => .ok a
  | invalid is => .error is

end Checked
end HydraClient.Metadata
