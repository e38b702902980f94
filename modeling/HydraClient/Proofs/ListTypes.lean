import HydraClient.Proofs.ListFields

/-! # Query parameters of list operations

The interface of a list operation extends the shared one for the type that is listed, and imports
both. Its fields come from paging and from filters.
-/
namespace HydraClient.Operations

open Metadata TypeRegistry

variable {cat : Catalog} {r : TypeRegistry} {entry : EndpointEntry} {resource : TypeEntry}
  {e : Exposure} {o : Operation} {d : Derivation} {given : String → Prop}

theorem takes_listBase {f n : String} :
    (listBase cat.config entry resource e o).imports.Takes f n ↔
      ((pagingFields cat.config e o).2 = true ∧ f = BaseTypes.enumFile ∧ n = "BooleanEnum") ∨
        (resource.file = some f ∧ n = resource.name) ∨
          (f = BaseTypes.apiTypesFile ∧ n = "ListParams") := by
  unfold listBase
  by_cases hb : (pagingFields cat.config e o).2 = true
  · simp [hb, eq_comm]
  · simp [hb, eq_comm]

theorem listBase_supers :
    (listBase cat.config entry resource e o).supers = ["ListParams<" ++ resource.name ++ ">"] := by
  unfold listBase
  cases resource.file <;> split <;> rfl

private theorem composed_switch {fs : FilterFields} {scope : String → Prop} {n : String}
    {on : Bool} (name : String) (hfs : ∀ f ∈ fs.values, Composed scope given f.union)
    (hn : on = true → scope n) :
    ∀ f ∈ (if on = true then fs.contribute name n else fs).values,
      Composed scope given f.union := by
  cases on with
  | false => exact hfs
  | true =>
    exact Deriving.composed_contribute hfs (.inl (.of_spelled (spelled_name (hn rfl))))

theorem composed_pagingFields {scope : String → Prop} (hnumber : scope "number")
    (henum : (pagingFields cat.config e o).2 = true → scope "BooleanEnum") :
    ∀ f ∈ (pagingFields cat.config e o).1.values, Composed scope given f.union := by
  have hnone : ∀ f ∈ (OrderedMap.empty : FilterFields).values, Composed scope given f.union := by
    simp [OrderedMap.values, OrderedMap.empty]
  have hpage := composed_switch cat.config.paging.pageParameter hnone
    fun _ : cascade o.paging.enabled e.paging.enabled cat.config.paging.enabled = true => hnumber
  have hitems := composed_switch cat.config.paging.itemsPerPageParameter hpage
    fun _ : cascade o.paging.clientItemsPerPage e.paging.clientItemsPerPage
      cat.config.paging.clientItemsPerPage = true => hnumber
  have hclient := composed_switch cat.config.paging.enabledParameter hitems
    fun hon : cascade o.paging.clientEnabled e.paging.clientEnabled
      cat.config.paging.clientEnabled = true => henum (by simp [pagingFields, hon])
  exact composed_switch _ hclient fun hon => henum (by simp [pagingFields, hon])

theorem gathered_listBase {hydra : String} (hb : Seeded hydra r)
    (hres : r.get? resource.name = some resource) :
    Gathered r given ⟨(pagingFields cat.config e o).1,
      (listBase cat.config entry resource e o).imports⟩ where
  imports hi := by
    rcases takes_listBase.1 hi with ⟨-, rfl, rfl⟩ | ⟨hf, rfl⟩ | ⟨rfl, rfl⟩
    · exact hb.declares_enum (.inl rfl)
    · exact ⟨resource, hres, hf⟩
    · exact hb.declares_envelope (by simp [BaseTypes.names_envelopes])
  fields := composed_pagingFields (hb.builtin (by decide)) fun hon =>
    (hb.declares_enum (.inl rfl)).imported (takes_listBase.2 (.inl ⟨hon, rfl, rfl⟩))

theorem gathers_deriveFields {hydra : String} {d' : Derivation}
    (hs : Searchable hydra r resource)
    (hd : Filter.Ready hydra r resource (Declared (cat.filtersOf o.filters)) d)
    (h : Yields (deriveFields cat r resource o) d ⟨⟩ d') :
    GathersMore r (Declared (cat.filtersOf o.filters)) d d' := by
  refine gathersMore_of_pass hd.gathered h ?_
  intro filter hf m m' hm hR
  exact Filter.gathers_derive hs (hd.more hm) (fun p hp => ⟨filter, hf, p, hp, rfl⟩) hR

end HydraClient.Operations
