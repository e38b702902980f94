import HydraClient.Routes
import Mathlib.Data.List.Nodup
import Mathlib.Data.List.Perm.Subperm

/-! # Numbered names

Of names that are asked for one after the other, each is given as it is asked for, or with the first
number behind it that makes it new. The search for the number ends, since the numbered names differ
from one another and only finitely many are taken.
-/
namespace HydraClient.Routes

def numbered (constant : String) (k : Nat) : String := constant ++ "_" ++ toString k

theorem numbered_injective (constant : String) : Function.Injective (numbered constant) := by
  intro j k h
  have hdigits : Nat.toDigits 10 j = Nat.toDigits 10 k := by
    simpa [numbered, Nat.toString_eq_ofList_toDigits] using congrArg String.toList h
  exact Function.LeftInverse.injective (fun _ => Nat.ofDigitChars_ten_toDigits) hdigits

theorem numbered_ne (constant : String) (k : Nat) : numbered constant k ≠ constant := by
  intro h
  have hlength := congrArg (fun s : String => s.toList.length) h
  simp [numbered] at hlength

/-- What a constant is called when some names are taken: itself if it is free, and else by the first
number from two on that makes it free. -/
inductive Chosen (used : List String) (constant : String) : String → Prop where
  | plain : constant ∉ used → Chosen used constant constant
  | numbered (k : Nat) : constant ∈ used → 2 ≤ k → numbered constant k ∉ used →
      (∀ j, 2 ≤ j → j < k → numbered constant j ∈ used) → Chosen used constant (numbered constant k)

namespace Chosen

variable {used : List String} {constant n m : String}

theorem not_mem (h : Chosen used constant n) : n ∉ used := by
  cases h with
  | plain h => exact h
  | numbered k _ _ h _ => exact h

theorem unique (h : Chosen used constant n) (h' : Chosen used constant m) : n = m := by
  cases h with
  | plain hfree =>
    cases h' with
    | plain => rfl
    | numbered _ hused => exact absurd hused hfree
  | numbered k hused hk hfree hfirst =>
    cases h' with
    | plain hfree' => exact absurd hused hfree'
    | numbered l _ hl hfree' hfirst' =>
      rcases Nat.lt_trichotomy k l with hlt | rfl | hlt
      · exact absurd (hfirst' k hk hlt) hfree
      · rfl
      · exact absurd (hfirst l hl hlt) hfree'

theorem congr {used' : List String} (h : Chosen used constant n)
    (hused : ∀ m, m ∈ used ↔ m ∈ used') : Chosen used' constant n := by
  cases h with
  | plain hfree => exact .plain fun hmem => hfree ((hused _).2 hmem)
  | numbered k hmem hk hfree hfirst =>
    exact .numbered k ((hused _).1 hmem) hk (fun h => hfree ((hused _).2 h))
      fun j hj hlt => (hused _).1 (hfirst j hj hlt)

end Chosen

section Search

variable {used : List String} {constant : String}

theorem length_of_taken {n : Nat} (hconstant : constant ∈ used)
    (htaken : ∀ j, 2 ≤ j → j < n + 2 → numbered constant j ∈ used) : n < used.length := by
  -- The constant and the numbered names are one more than the numbers, and all are taken.
  have hnodup : (constant :: (List.range n).map fun i => numbered constant (i + 2)).Nodup := by
    rw [List.nodup_cons]
    constructor
    · intro hmem
      obtain ⟨i, -, hi⟩ := List.mem_map.1 hmem
      exact numbered_ne constant _ hi
    · refine List.Nodup.map ?_ List.nodup_range
      intro i j hij
      have := numbered_injective constant hij
      omega
  have hsubset : (constant :: (List.range n).map fun i => numbered constant (i + 2)) ⊆ used := by
    intro name hname
    rcases List.mem_cons.1 hname with rfl | hname
    · exact hconstant
    · obtain ⟨i, hi, rfl⟩ := List.mem_map.1 hname
      have hi := List.mem_range.1 hi
      exact htaken (i + 2) (by omega) (by omega)
  have hlength := (List.subperm_of_subset hnodup hsubset).length_le
  simp only [List.length_cons, List.length_map, List.length_range] at hlength
  omega

/-- The search goes on over taken names only. It has either found a free one in the end, or all that
it has looked at are taken. -/
theorem freeName_cases {k : Nat} (fuel : Nat) (hk : 2 ≤ k) (hconstant : constant ∈ used)
    (htaken : ∀ j, 2 ≤ j → j < k → numbered constant j ∈ used) :
    Chosen used constant (freeName used constant fuel k) ∨
      ∀ j, 2 ≤ j → j < k + fuel → numbered constant j ∈ used := by
  -- All numbers below `k` are taken, so the first free one is found and no other.
  induction fuel generalizing k with
  | zero => exact .inr htaken
  | succ fuel ih =>
    unfold freeName
    by_cases hmem : numbered constant k ∈ used
    · have hnext : ∀ j, 2 ≤ j → j < k + 1 → numbered constant j ∈ used := by
        intro j hj hlt
        by_cases hjk : j = k
        · exact hjk ▸ hmem
        · exact htaken j hj (by omega)
      have hfound := ih (by omega) hnext
      rw [show k + 1 + fuel = k + (fuel + 1) by omega] at hfound
      dsimp only
      rw [if_pos (by simpa [numbered] using hmem)]
      exact hfound
    · refine .inl ?_
      dsimp only
      rw [if_neg (by simpa [numbered] using hmem)]
      exact .numbered k hconstant hk hmem htaken

/-- The search ends, and with the first free name. -/
theorem chosen_uniqueName (used : List String) (constant : String) :
    Chosen used constant (uniqueName used constant) := by
  unfold uniqueName
  by_cases hmem : constant ∈ used
  · rw [if_pos (by simpa using hmem)]
    rcases freeName_cases used.length (Nat.le_refl 2) hmem (by omega) with h | htaken
    · exact h
    · have hlt := length_of_taken (n := used.length) hmem fun j hj hlt => htaken j hj (by omega)
      omega
  · rw [if_neg (by simpa using hmem)]
    exact .plain hmem

theorem chosen_iff {n : String} : Chosen used constant n ↔ n = uniqueName used constant := by
  constructor
  · exact fun h => h.unique (chosen_uniqueName used constant)
  · rintro rfl
    exact chosen_uniqueName used constant

theorem uniqueName_not_mem (used : List String) (constant : String) :
    uniqueName used constant ∉ used := (chosen_uniqueName used constant).not_mem

end Search

/-- The names that constants are given one after the other. -/
def assign (used : List String) : List String → List String
  | [] => []
  | constant :: rest =>
    uniqueName used constant :: assign (uniqueName used constant :: used) rest

section Assign

variable {used : List String} {constants : List String}

/-- Each name is chosen with those before it taken. -/
theorem chosen_assign {i : Nat} {n : String} (h : (assign used constants)[i]? = some n) :
    ∃ constant, constants[i]? = some constant ∧
      Chosen ((assign used constants).take i ++ used) constant n := by
  induction constants generalizing used i with
  | nil => cases h
  | cons constant rest ih =>
    cases i with
    | zero =>
      obtain rfl := Option.some.inj h
      exact ⟨constant, rfl, chosen_uniqueName used constant⟩
    | succ i =>
      obtain ⟨c, hc, hchosen⟩ := ih h
      -- The names before come in another order here.
      refine ⟨c, hc, hchosen.congr fun m => ?_⟩
      simp only [assign, List.take_succ_cons, List.cons_append, List.mem_append, List.mem_cons]
      tauto

theorem not_mem_of_mem_assign {n : String} (h : n ∈ assign used constants) : n ∉ used := by
  induction constants generalizing used with
  | nil => cases h
  | cons constant rest ih =>
    rcases List.mem_cons.1 h with rfl | h
    · exact uniqueName_not_mem used constant
    · intro hused
      exact ih h (List.mem_cons_of_mem _ hused)

theorem nodup_assign : (assign used constants).Nodup := by
  induction constants generalizing used with
  | nil => exact List.nodup_nil
  | cons constant rest ih =>
    refine List.nodup_cons.2 ⟨?_, ih⟩
    intro hmem
    exact not_mem_of_mem_assign hmem List.mem_cons_self

/-- A name that was asked for later may be the one that a number has given already. -/
example : assign [] ["HOME", "HOME", "HOME_2"] = ["HOME", "HOME_2", "HOME_2_2"] := by
  decide

end Assign

end HydraClient.Routes
