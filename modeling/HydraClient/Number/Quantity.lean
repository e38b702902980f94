import HydraClient.Number.Binary64

/-! # Quantities

Whole and real numbers, compared by value.
-/
namespace HydraClient

inductive Quantity where
  | whole (n : Int)
  | real (x : Binary64)

namespace Quantity

def equals : Quantity → Quantity → Bool
  | .whole m, .whole n => m == n
  | .whole n, .real x => x.equalsInt n
  | .real x, .whole n => x.equalsInt n
  | .real x, .real y => x.equals y

end Quantity
end HydraClient
