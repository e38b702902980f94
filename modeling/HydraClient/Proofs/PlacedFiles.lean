import HydraClient.Proofs.Generation

/-! # Placed files

Where no builtin type can be taken for a class, every import of an extracted draft has a file, and
so has every import of what is composed of it. Such a draft can be put together.
-/
namespace HydraClient

open Metadata TypeRegistry

namespace Linking

variable {r : OperationRegistry}

theorem placed_accept (h : ∀ c e, r.get? c = some e → e.imports.Placed) (o : Offer) :
    ∀ c e, (accept r o).1.get? c = some e → e.imports.Placed := by
  rcases accept_cases r o with ⟨hspent, -⟩ | ⟨e, _, symbol, he, -, -, -, htaken⟩
  · rw [hspent]
    exact h
  · rw [htaken]
    intro c x hx
    rw [OrderedMap.get?_insert] at hx
    split at hx
    · obtain rfl := Option.some.inj hx
      exact Imports.placed_add (h _ e he)
    · exact h c x hx

theorem placed_link (h : ∀ c e, r.get? c = some e → e.imports.Placed) :
    ∀ c e, (link r).1.get? c = some e → e.imports.Placed := by
  unfold link
  generalize offers r = os, 0 = count
  induction os generalizing r count with
  | nil => exact h
  | cons o rest ih => exact ih (placed_accept h o) _

end Linking

structure Draft.Placed (d : Draft) : Prop where
  types : d.types.Placed
  entries : ∀ c e, d.operations.get? c = some e → e.imports.Placed

variable {cat : Catalog} {disk : Disk} {d : Draft}

theorem Phased.placed {seeded modeled served : Draft} (h : Phased cat disk seeded modeled served d)
    (hfree : ¬cat.ClaimsBuiltin) : d.Placed := by
  have hseeded := h.exactly.coherent
  have hmodeled : modeled.types.Placed :=
    (TypeRegistry.Placed.of_exactly h.exactly).grows hseeded hfree h.extracted.growth
  have hs := h.extracted.coherent hseeded
  constructor
  · rw [h.types_eq]
    exact hmodeled.grows hs hfree h.bound.growth
  · rw [h.helpers.operations]
    refine Linking.placed_link fun c e he => ?_
    obtain ⟨-, _, _, hserved⟩ := h.bound.entries he
    exact hserved.holds.placed hfree hs hmodeled

theorem Render.placed_endpointImports {e : EndpointEntry} {bindings : List (String × Binding)}
    (h : e.imports.Placed) : (endpointImports e bindings).Placed := by
  refine Imports.placed_add (Imports.placed_foldl (fun b _ i hi => ?_) (Imports.placed_foldl
    (fun helper _ i hi => Imports.placed_add hi) h))
  dsimp only
  split
  · exact Imports.placed_add (Imports.placed_add (Imports.placed_add hi))
  · exact hi

/-- What is composed of a placed draft takes nothing from nowhere. -/
theorem Contributes.placed {file : String} {f : Fragment} (h : Contributes cat disk d file f)
    (hd : d.Placed) : f.imports.Placed := by
  cases h with
  | seed _ hf =>
    rw [BaseTypes.imports_of_seeded hf]
    exact Imports.placed_empty
  | payload hf =>
    obtain ⟨t, -, -, rfl⟩ := hf
    exact Imports.placed_foldl (fun _ _ _ hi => Imports.placed_add hi) Imports.placed_empty
  | types hf =>
    obtain ⟨e, he, rfl, hf⟩ := hf
    obtain ⟨blocks, -, hf⟩ := exists_of_bind_ok hf
    obtain rfl := Except.ok.inj hf
    refine Imports.placed_foldl (fun t ht i hi => hi.merge ?_) Imports.placed_empty
    have hmem : t ∈ (d.types.byFile.get? e.1).getD [] := by
      rw [OrderedMap.mem_entries_iff.1 he]
      exact List.mem_mergeSort.1 ht
    obtain ⟨n, hn⟩ := mem_toList.1 (mem_byFile.1 hmem).1
    exact (hd.types n t hn).imports
  | endpoint hf =>
    obtain ⟨e, he, body, imports, htext, -, rfl⟩ := hf
    obtain ⟨c, hc⟩ := OrderedMap.mem_values_iff.1 he
    unfold Render.endpoint? at htext
    dsimp only at htext
    split at htext
    · cases htext
    · obtain ⟨-, rfl⟩ := Prod.mk.inj (Option.some.inj htext)
      exact Render.placed_endpointImports (hd.entries c e hc)
  | routes _ hf =>
    obtain ⟨lines, -, hf, -⟩ := hf
    unfold Routes.fragment? at hf
    split at hf
    · cases hf
    · obtain rfl := Option.some.inj hf
      exact Imports.placed_add (Imports.placed_add Imports.placed_empty)

theorem FileSet.unplaced?_eq_none {s : FileSet}
    (h : ∀ {file f}, f ∈ s.fragments file → f.imports.Placed) : s.unplaced? = none := by
  refine List.findSome?_eq_none_iff.2 fun e he => Imports.Placed.unplaced? ?_
  refine Imports.placed_foldl (fun f hf i hi => ?_) Imports.placed_empty
  have hmem : f ∈ s.fragments e.1 := by
    rw [fragments, OrderedMap.mem_entries_iff.1 he]
    exact hf
  exact hi.merge (h hmem)

theorem Generates.unplaced?_eq_none {doc : Document} (h : Generates doc disk d)
    (hfree : ¬(Catalog.ofDocument doc).ClaimsBuiltin) : d.files.unplaced? = none := by
  obtain ⟨_, _, _, hphased, hr⟩ := h.rendered
  have hplaced := hphased.placed hfree
  have hd : d.Placed := by
    constructor
    · rw [hr.types]
      exact hplaced.types
    · rw [hr.operations]
      exact hplaced.entries
  exact FileSet.unplaced?_eq_none fun hf => (hr.fragments.1 hf).placed hd

end HydraClient
