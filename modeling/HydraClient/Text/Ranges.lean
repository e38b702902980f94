/-! # Tables of code points -/
namespace HydraClient.Text

def inRanges (table : List (Nat × Nat)) (n : Nat) : Bool :=
  table.any fun r => r.1 ≤ n && n ≤ r.2

end HydraClient.Text
