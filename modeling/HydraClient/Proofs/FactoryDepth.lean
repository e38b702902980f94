import HydraClient.Proofs.Registration
import HydraClient.Proofs.Work
import HydraClient.Render.Types
import Mathlib.Data.Finset.Card
import Mathlib.Data.Finset.SDiff

/-! # Depth of factories

A factory collects the properties of its ancestors and visits every type once, so it is done before
it has gone as deep as there are types. What it collects depends on the types that it can reach, and
neither on the bound nor on any other type.
-/
namespace HydraClient

open TypeRegistry

namespace Render

variable {r r' : TypeRegistry} {depth depth' : Nat} {seen seen' : List String} {t : TypeEntry}
  {n : String} {acc : OrderedMap String Property × List String}

def unvisited (r : TypeRegistry) (seen : List String) : Finset String :=
  r.names.toFinset \ seen.toFinset

theorem mem_unvisited : n ∈ unvisited r seen ↔ (∃ u, r.get? n = some u) ∧ n ∉ seen := by
  rw [unvisited, Finset.mem_sdiff, List.mem_toFinset, List.mem_toFinset, names,
    OrderedMap.mem_keys_iff]
  rfl

theorem card_unvisited_le (h : seen ⊆ seen') :
    (unvisited r seen').card ≤ (unvisited r seen).card := by
  refine Finset.card_le_card fun n hn => ?_
  rw [mem_unvisited] at hn ⊢
  exact ⟨hn.1, fun hmem => hn.2 (h hmem)⟩

theorem card_unvisited_lt (hn : ∃ u, r.get? n = some u) (hnew : n ∉ seen) :
    (unvisited r (n :: seen)).card < (unvisited r seen).card := by
  refine Finset.card_lt_card ⟨fun m hm => ?_, fun hsub => ?_⟩
  · rw [mem_unvisited] at hm ⊢
    exact ⟨hm.1, fun hmem => hm.2 (List.mem_cons_of_mem _ hmem)⟩
  · exact (mem_unvisited.1 (hsub (mem_unvisited.2 ⟨hn, hnew⟩))).2 List.mem_cons_self

theorem card_unvisited_nil (r : TypeRegistry) : (unvisited r []).card ≤ r.size := by
  have hle : (unvisited r []).card ≤ r.names.toFinset.card :=
    Finset.card_le_card Finset.sdiff_subset
  have hlength : r.names.length = r.size := List.length_map _
  have hnames := List.toFinset_card_le r.names
  omega

def visitSuper (r : TypeRegistry) (depth : Nat) (acc : OrderedMap String Property × List String)
    (super : String) : OrderedMap String Property × List String :=
  match r.get? super with
  | none => acc
  | some parent =>
    if !parent.hasFactory || acc.2.contains parent.name then acc
    else
      let collected := collectProperties r depth acc.2 parent
      (overlay acc.1 collected.1, collected.2)

theorem collectProperties_succ (r : TypeRegistry) (depth : Nat) (seen : List String)
    (t : TypeEntry) : collectProperties r (depth + 1) seen t =
      let acc := t.supers.foldl (visitSuper r depth) (.empty, t.name :: seen)
      (overlay acc.1 t.properties, acc.2) := rfl

theorem subset_visitSuper (h : ∀ seen t, seen ⊆ (collectProperties r depth seen t).2) :
    acc.2 ⊆ (visitSuper r depth acc n).2 := by
  unfold visitSuper
  split
  · exact List.Subset.refl _
  · split
    · exact List.Subset.refl _
    · exact h _ _

theorem subset_collectProperties : seen ⊆ (collectProperties r depth seen t).2 := by
  induction depth generalizing seen t with
  | zero => exact List.subset_cons_self _ _
  | succ depth ih =>
    rw [collectProperties_succ]
    refine List.foldlRecOn (motive := fun acc => seen ⊆ acc.2) t.supers (visitSuper r depth) ?_
      fun acc hacc n _ => ?_
    · exact List.subset_cons_self _ _
    · exact List.Subset.trans hacc (subset_visitSuper fun seen t => ih)

section Congr

variable (hr : Coherent r) (hsupers : ∀ n u, r.get? n = some u → u.hasFactory = true →
  ∀ m ∈ u.supers, r'.get? m = r.get? m)
include hr hsupers

theorem collectProperties_congr (ht : r.get? t.name = some t) (hf : t.hasFactory = true)
    (hnew : t.name ∉ seen) (hdepth : (unvisited r seen).card ≤ depth)
    (hdepth' : (unvisited r seen).card ≤ depth') :
    collectProperties r' depth' seen t = collectProperties r depth seen t := by
  induction depth generalizing depth' seen t with
  | zero =>
    have hlt := card_unvisited_lt ⟨t, ht⟩ hnew
    omega
  | succ depth ih =>
    have hlt := card_unvisited_lt ⟨t, ht⟩ hnew
    obtain ⟨depth', rfl⟩ := Nat.exists_eq_succ_of_ne_zero (by omega : depth' ≠ 0)
    -- Once the type itself is visited, one level less is enough for its parents.
    have hstep : ∀ m ∈ t.supers, ∀ acc, t.name :: seen ⊆ acc.2 →
        visitSuper r' depth' acc m = visitSuper r depth acc m := by
      intro m hm acc hacc
      unfold visitSuper
      rw [hsupers _ _ ht hf m hm]
      cases hp : r.get? m with
      | none => rfl
      | some p =>
        dsimp only
        split
        · rfl
        · rename_i hvisit
          simp only [Bool.or_eq_true, Bool.not_eq_true', List.contains_iff_mem, not_or,
            Bool.not_eq_false] at hvisit
          have hle := card_unvisited_le (r := r) hacc
          rw [ih (by rw [hr.named hp]; exact hp) hvisit.1 hvisit.2 (by omega) (by omega)]
    have hfold : ∀ l ⊆ t.supers, ∀ acc, t.name :: seen ⊆ acc.2 →
        l.foldl (visitSuper r' depth') acc = l.foldl (visitSuper r depth) acc := by
      intro l hl acc hacc
      induction l generalizing acc with
      | nil => rfl
      | cons m rest ih =>
        obtain ⟨hm, hrest⟩ := List.cons_subset.1 hl
        rw [List.foldl_cons, List.foldl_cons, hstep m hm acc hacc]
        refine ih hrest _ (List.Subset.trans hacc ?_)
        exact subset_visitSuper fun seen t => subset_collectProperties
    rw [collectProperties_succ, collectProperties_succ,
      hfold t.supers (List.Subset.refl _) _ (List.Subset.refl _)]

theorem typeLines_congr (hsize : r.size ≤ r'.size) (ht : r.get? n = some t) :
    typeLines r' t = typeLines r t := by
  rw [← hr.named ht] at ht
  unfold typeLines
  split
  · rfl
  · by_cases hf : t.hasFactory = true
    · have hsmall := card_unvisited_nil r
      have hproperties : factoryProperties r' t = factoryProperties r t := by
        rw [factoryProperties, factoryProperties]
        exact congrArg Prod.fst (collectProperties_congr hr hsupers ht hf List.not_mem_nil
          (by omega) (by omega))
      rw [factoryLines, factoryLines, hproperties]
    · rw [if_neg hf, if_neg hf]
  · rfl
  · rfl
  · rfl

theorem typeFragment_congr (hsize : r.size ≤ r'.size) {group : List TypeEntry}
    (hgroup : ∀ t ∈ group, ∃ n, r.get? n = some t) :
    typeFragment r' group = typeFragment r group := by
  have hlines : ∀ t ∈ group.mergeSort fun a b => a.siblingCount ≤ b.siblingCount,
      (typeLines r' t).map (String.intercalate "\n") =
        (typeLines r t).map (String.intercalate "\n") := by
    intro t ht
    obtain ⟨n, hn⟩ := hgroup t (List.mem_mergeSort.1 ht)
    rw [typeLines_congr hr hsupers hsize hn]
  have hblocks := mapM_congr hlines
  unfold typeFragment
  dsimp only
  rw [hblocks]

end Congr

end Render
end HydraClient
