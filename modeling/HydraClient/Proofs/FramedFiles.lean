import HydraClient.Proofs.FactoryDepth
import HydraClient.Proofs.FramedExtraction
import HydraClient.Proofs.Generation
import HydraClient.Proofs.Mentions

/-! # Files beside a guest

What is written for a type depends on the types that it mentions, and what is written for an entry
depends on that entry. None of it changes when a guest is there, and what is written for the guest
goes to its own files. So every other file has the same fragments, in the same order.
-/
namespace HydraClient

open Metadata TypeRegistry

theorem flatMap_filter {α β : Type} (l : List α) (p : α → Bool) (f : α → List β) :
    (l.filter p).flatMap f = l.flatMap fun a => if p a then f a else [] := by
  induction l with
  | nil => rfl
  | cons a rest ih =>
    rw [List.filter_cons, List.flatMap_cons, ← ih]
    split
    · rw [List.flatMap_cons]
    · rw [List.nil_append]

namespace Guest.Beside

variable {g : Guest} {cat cat' : Catalog} {s t d d' d₀ d₀' : Draft} {u : TypeEntry} {p : Property}
  {file : String} {γ : Type}

theorem flatMap_types (h : g.Beside s t) {f : TypeEntry → List γ}
    (hf : ∀ u, g.Files (u.file.getD "") → f u = []) :
    t.types.toList.flatMap f = s.types.toList.flatMap f := by
  have hlist : ∀ u, (t.types.entries.erase g.name).get? g.listName = some u → f u = [] := by
    intro u hu
    rw [OrderedMap.get?_erase, if_neg name_ne_listName.symm] at hu
    exact hf u (.inr (by rw [(h.hosts.list hu).2, Option.getD_some]))
  have hname : ∀ u, t.types.entries.get? g.name = some u → f u = [] := by
    intro u hu
    obtain ⟨-, -, hfile⟩ := h.hosts.type hu
    exact hf u (.inl (by rw [hfile, Option.getD_some]))
  rw [h.types_eq]
  exact ((OrderedMap.flatMap_values_erase hlist).trans (OrderedMap.flatMap_values_erase hname)).symm

theorem typesIn_eq (h : g.Beside s t) (hfile : ¬g.Files file) :
    t.types.typesIn file = s.types.typesIn file := by
  have hfilter : ∀ r : TypeRegistry, r.typesIn file =
      r.toList.flatMap fun u => if u.isRendered && u.file.getD "" == file then [u] else [] := by
    intro r
    rw [← flatMap_filter, List.flatMap_singleton', typesIn]
  rw [hfilter, hfilter]
  refine h.flatMap_types fun u hu => if_neg fun hmem => hfile ?_
  rw [Bool.and_eq_true, beq_iff_eq] at hmem
  exact hmem.2 ▸ hu

theorem size_le (h : g.Beside s t) : s.types.size ≤ t.types.size := by
  rw [h.types_eq]
  exact (List.length_filter_le _ _).trans (List.length_filter_le _ _)

theorem typeFragments_eq (h : g.Beside s t) (hs : Coherent s.types) (hclosed : s.types.Closed)
    (hfile : ¬g.Files file) :
    Render.typeFragments t.types file = Render.typeFragments s.types file := by
  have hsupers : ∀ n u, s.types.get? n = some u → u.hasFactory = true → ∀ m ∈ u.supers,
      t.types.get? m = s.types.get? m := by
    intro n u hu hf m hm
    obtain ⟨p, hp⟩ := (hclosed n u hu).supers hf m hm
    rw [hp, h.get?_of_some hp]
  have hgroup : Render.typeFragment t.types (s.types.typesIn file) =
      Render.typeFragment s.types (s.types.typesIn file) :=
    Render.typeFragment_congr hs hsupers h.size_le fun u hu =>
      mem_toList.1 (List.mem_filter.1 hu).1
  unfold Render.typeFragments
  rw [OrderedMap.flatMap_entries_of_key, OrderedMap.flatMap_entries_of_key,
    get?_byFile, get?_byFile, h.typesIn_eq hfile]
  split
  · rw [Option.toList_none, List.flatMap_nil, List.flatMap_nil]
  · simp only [Option.toList_some, List.flatMap_singleton, Render.groupFragment, hgroup]

theorem converter?_eq (h : g.Beside s t) (hs : Coherent s.types) (hp : s.types.Resolves p) :
    Payload.converter? t p = Payload.converter? s p := by
  unfold Payload.converter?
  cases hrelated : p.related.filter (· != "") with
  | none => rfl
  | some n =>
    obtain ⟨target, htarget⟩ := hp n (.inl (Option.filter_eq_some_iff.1 hrelated).1)
    obtain ⟨c, m, hc, hm⟩ := hs.known htarget
    have hne : c ≠ g.source := fun heq => h.absent.not_sources hm (.inl heq)
    have hentry : (target.source.filter (· != "")).bind t.operations.get? =
        (target.source.filter (· != "")).bind s.operations.get? := by
      rw [hc]
      cases hfilter : (some c).filter (· != "") with
      | none => rfl
      | some c' =>
        obtain rfl := Option.some.inj (Option.filter_eq_some_iff.1 hfilter).1
        exact h.operations_get? hne
    simp only [Option.bind_eq_bind, Option.bind_some, htarget, h.get?_of_some htarget, hentry]

theorem helper_eq (h : g.Beside s t) (hs : Coherent s.types) (hclosed : s.types.Closed)
    (hu : u ∈ s.types.toList) : Payload.fragment t u = Payload.fragment s u := by
  obtain ⟨n, hn⟩ := mem_toList.1 hu
  have hrelations : (u.properties.values.filterMap fun p =>
      (Payload.converter? t p).map fun c => (p, c)) =
        u.properties.values.filterMap fun p => (Payload.converter? s p).map fun c => (p, c) :=
    List.filterMap_congr fun p hp => by rw [h.converter?_eq hs ((hclosed n u hn).properties p hp)]
  simp only [Payload.fragment, Payload.render, hrelations]

theorem helperFragments_eq (h : g.Beside s t) (hs : Coherent s.types) (hclosed : s.types.Closed)
    (hfile : ¬g.Files file) : Payload.helperFragments t file = Payload.helperFragments s file := by
  unfold Payload.helperFragments
  rw [flatMap_filter, flatMap_filter, h.flatMap_types]
  · exact List.flatMap_congr fun u hu => by rw [h.helper_eq hs hclosed hu]
  · intro u hu
    have hother : file ≠ u.file.getD "" := fun heq => hfile (by rwa [heq])
    rw [if_neg hother, ite_self]

theorem endpointFragments_eq (h : g.Beside s t) (hfile : ¬g.Files file) :
    Render.endpointFragments t.operations file = Render.endpointFragments s.operations file := by
  rw [h.operations_eq]
  refine (OrderedMap.flatMap_values_erase fun e he => ?_).symm
  unfold Render.entryFragments
  split
  · exact if_neg fun heq => hfile (.inr (heq.trans (h.entry he).file))
  · rfl

/-- Of two runs that extract beside each other, every file that is not the guest's has the same
fragments in both. -/
theorem fragments_eq (h : g.Beside s t) (hs : Coherent s.types) (hclosed : s.types.Closed)
    (hj : g.Joins cat cat') (hshaped : Brings (Payload.helperFragments s) s d₀)
    (hshaped' : Brings (Payload.helperFragments t) t d₀')
    (hcomposed : Brings (composedFragments cat d₀) d₀ d)
    (hcomposed' : Brings (composedFragments cat' d₀') d₀' d') (hfile : ¬g.Files file) :
    d'.files.fragments file = d.files.fragments file := by
  have hfiles : t.files = s.files := by rw [← h.hidden]; rfl
  have hroutes : Pipeline.routeFragments cat' id file = Pipeline.routeFragments cat id file := by
    unfold Pipeline.routeFragments
    rw [hj.config, hj.routes]
  rw [hcomposed'.fragments, hcomposed.fragments, hshaped'.fragments, hshaped.fragments, hfiles,
    h.helperFragments_eq hs hclosed hfile, composedFragments, composedFragments, hshaped'.types,
    hshaped'.operations, hshaped.types, hshaped.operations, h.typeFragments_eq hs hclosed hfile,
    h.endpointFragments_eq hfile, hroutes, hj.config]

end Guest.Beside
end HydraClient
