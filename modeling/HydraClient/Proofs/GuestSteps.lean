import HydraClient.Proofs.FramedOperations
import HydraClient.Proofs.ParentLinks

/-! # What a guest does

A class with scalar fields only, without a parent and without operations that deal with other
classes, registers its own types and fills its own entry. None of that shows in the draft without
it, so classes before and after it in the order of a document are taken up as if it were not there.
-/
namespace HydraClient

open Metadata TypeRegistry Model

/-- A class that refers to no other one. -/
structure Metadata.ClassDecl.Standalone (shape : ClassDecl) : Prop where
  scalar : ∀ f ∈ shape.fields, ∀ form ∈ f.types, ∃ word, scalar? form.builtin = some word
  parentless : ∀ parent, shape.parent = some parent → parent = ""
  unlinked : ∀ e ∈ shape.exposures, e.uriVariables = []
  undealt : ∀ e ∈ shape.exposures, ∀ o ∈ e.operations, ∀ a,
    o.input = some a ∨ o.output = some a → a = ""

namespace Guest

variable {g : Guest} {cat : Catalog} {visit : String → Drafting TypeEntry} {s s' t t' : Draft}
  {shape : ClassDecl} {owner u : TypeEntry} {field : Field} {p : Property}

structure Stands (g : Guest) (cat : Catalog) (shape : ClassDecl) : Prop where
  described : cat.class? g.source = some shape
  standalone : shape.Standalone
  named : (nameCandidates cat.config shape).head? = some g.name

theorem state_of_buildProperty {inherited : Bool}
    (hscalar : ∀ form ∈ field.types, ∃ word, scalar? form.builtin = some word)
    (h : Yields (buildProperty cat visit owner field inherited) s p s') : s' = s := by
  refine (Yields.foldlM_pass h).invariant (I := fun x => x.2 = s) rfl ?_
  intro form hform x y hx hy
  obtain ⟨word, hword⟩ := hscalar form hform
  unfold applyType at hy
  simp only [hword] at hy
  obtain ⟨literal, -, hy⟩ := Yields.lift_bind.1 hy
  obtain ⟨-, hy⟩ := Yields.pure_iff.1 hy
  exact hy.trans hx

namespace Beside

theorem resolveName_own {n : String} (h : g.Beside s t) (hg : g.Stands cat shape)
    (hn : t.types.resolveName (nameCandidates cat.config shape) g.source = .ok n) : n = g.name := by
  have hfree : (t.types.get? g.name).all (fun u => u.source == some g.source) = true := by
    cases hu : t.types.get? g.name with
    | none => rfl
    | some u => simp [(h.hosts.type hu).2.1]
  have hnamed := hg.named
  unfold TypeRegistry.resolveName at hn
  cases hcandidates : nameCandidates cat.config shape with
  | nil =>
    rw [hcandidates] at hnamed
    cases hnamed
  | cons first rest =>
    rw [hcandidates] at hn hnamed
    obtain rfl := Option.some.inj hnamed
    have hfind : (g.name :: rest).find? (fun k =>
        (t.types.get? k).all fun u => u.source == some g.source) = some g.name :=
      List.find?_cons_of_pos hfree
    rw [hfind] at hn
    exact (Except.ok.inj hn).symm

theorem extractNew_own (h : g.Beside s t) (hg : g.Stands cat shape)
    (hy : Yields (extractNew cat visit g.source) t u t') :
    g.Beside s t' ∧ u.name = g.name ∧ u.file = some ("interfaces/" ++ g.name) := by
  obtain ⟨shape', name, parent, m, m', hsteps⟩ := exists_newSteps hy
  obtain rfl := Option.some.inj (hg.described.symm.trans hsteps.described)
  obtain rfl := h.resolveName_own hg hsteps.resolved
  have hopened : g.Beside s { t with types := t.types.put (bare g.name g.source shape) } :=
    h.put_own (.inl rfl) rfl (.inl rfl) (h.hosts.put_type rfl rfl rfl)
  have hparented : g.Beside s m := by
    cases hsteps.parented with
    | skip => exact hopened
    | add hparent hne => exact absurd (hg.standalone.parentless _ hparent) hne
  have haddressed : g.Beside s m' := by
    rcases hsteps.addressed with rfl | ⟨-, rfl⟩
    · exact hparented
    · exact hparented.modifyType_own (.inl rfl) head_withAddress
  have hfilled : g.Beside s t' := by
    refine hsteps.filled.invariant (I := fun m => g.Beside s m) haddressed ?_
    intro field hfield m m' hm hstep
    cases hstep with
    | skip => exact hm
    | add _ hbuild =>
      obtain rfl := state_of_buildProperty (hg.standalone.scalar field hfield) hbuild
      exact hm.modifyType_own (.inl rfl) fun t => t.head_addProperty _
  refine ⟨hfilled, ?_⟩
  rw [hsteps.result]
  cases hu : t'.types.get? g.name with
  | none => exact ⟨rfl, rfl⟩
  | some u =>
    obtain ⟨hname, -, hfile⟩ := hfilled.hosts.type hu
    exact ⟨hname, hfile⟩

theorem extract_own (h : g.Beside s t) (hg : g.Stands cat shape)
    (hy : Yields (extract cat g.source) t u t') :
    g.Beside s t' ∧ u.name = g.name ∧ u.file = some ("interfaces/" ++ g.name) := by
  rcases yields_extractWithin_succ hy with ⟨hl, rfl⟩ | ⟨-, hnew⟩
  · obtain ⟨n, hn, hu⟩ := lookupSource_eq_some.1 hl
    obtain rfl := h.hosts.index hn
    obtain ⟨hname, -, hfile⟩ := h.hosts.type hu
    exact ⟨h, hname, hfile⟩
  · exact h.extractNew_own hg hnew

end Beside

open Operations

namespace Serves

variable {x : EndpointEntry} {resource : TypeEntry} {e : Exposure}

theorem addImport (file : Option String) (n : String) (h : g.Serves x) :
    g.Serves (x.addImport file n) := ⟨h.source, h.file, h.links⟩

theorem withBinding (h : g.Serves x) (he : e.uriVariables = []) :
    g.Serves (withBinding g.source resource e x) := by
  unfold Operations.withBinding
  split
  · exact h
  · refine ⟨h.source, h.file, fun b hb => ?_⟩
    rcases OrderedMap.mem_values_insert hb with rfl | hb
    · have hlinks : parentLinks g.source e = [] := by rw [parentLinks, he, List.filter_nil]
      exact hlinks
    · exact h.links b hb

theorem withCall {symbol : String} {c : Call} (h : g.Serves x) :
    g.Serves (withCall symbol c x) where
  source := h.source
  file := h.file
  links b hb := by
    obtain ⟨k, hk⟩ := OrderedMap.mem_values_iff.1 hb
    rw [Operations.withCall, OrderedMap.get?_modify] at hk
    split at hk
    · obtain ⟨b', hb', rfl⟩ := Option.map_eq_some_iff.1 hk
      exact h.links b' (OrderedMap.mem_values_iff.2 ⟨k, hb'⟩)
    · exact h.links b (OrderedMap.mem_values_iff.2 ⟨k, hk⟩)

end Serves

namespace Beside

variable {entry : EndpointEntry} {resource : TypeEntry} {e : Exposure} {o : Operation} {c : Call}
  {v : Unit} {className : Option String} {n : String}

theorem ioType_own (hc : ∀ a, className = some a → a = "")
    (hy : Yields (ioType cat className resource) t u t') : t' = t := by
  unfold ioType at hy
  split at hy
  · exact (Yields.pure_iff.1 hy).2
  · rename_i a
    rw [if_pos (hc a rfl)] at hy
    exact (Yields.pure_iff.1 hy).2

section Entry

variable (hsource : entry.source = g.source) (hfile : entry.file = "endpoint/" ++ g.name)
  (hname : resource.name = g.name)
include hsource hfile hname

theorem listParams_own (h : g.Beside s t)
    (hy : Yields (listParams cat entry resource e o) t n t') : g.Beside s t' := by
  obtain ⟨-, d, -, -, rfl⟩ := yields_listParams hy
  have hlist : (listType cat.config entry resource e o d).name = g.listName := by
    rw [listType_name, hname]
    rfl
  have hsource' : (listType cat.config entry resource e o d).source = some g.listSource := by
    rw [listType_source, hsource]
    rfl
  have hfile' : (listType cat.config entry resource e o d).file =
      some ("endpoint/" ++ g.name) := by
    rw [← hfile]
    exact (congrArg TypeEntry.file (listType_head cat.config entry resource e o d) :)
  exact h.put_own (.inr hlist) hsource' (.inr rfl) (h.hosts.put_list hlist hsource' hfile')

theorem buildCall_own (h : g.Beside s t)
    (ho : ∀ a, o.input = some a ∨ o.output = some a → a = "")
    (hy : Yields (buildCall cat entry resource e o) t c t') : g.Beside s t' := by
  obtain ⟨kind, -, hy⟩ := Yields.lift_bind.1 hy
  obtain ⟨input, m₁, hinput, hy⟩ := Yields.bind_iff.1 hy
  obtain ⟨output, m₂, houtput, hy⟩ := Yields.bind_iff.1 hy
  obtain ⟨_, m₃, himports, hy⟩ := Yields.bind_iff.1 hy
  obtain rfl := ioType_own (fun a ha => ho a (.inl ha)) hinput
  obtain rfl := ioType_own (fun a ha => ho a (.inr ha)) houtput
  obtain rfl := yields_modifyEntry himports
  rw [hsource] at hy
  have hm := h.modifyEntry_own fun x hx =>
    (hx.addImport input.file input.name).addImport output.file output.name
  split at hy
  · obtain ⟨params, m, hparams, hy⟩ := Yields.bind_iff.1 hy
    obtain ⟨-, rfl⟩ := Yields.pure_iff.1 hy
    obtain ⟨n, hlist, -⟩ := Yields.map_iff.1 hparams
    exact hm.listParams_own hsource hfile hname hlist
  · obtain ⟨params, m, hparams, hy⟩ := Yields.bind_iff.1 hy
    obtain ⟨-, rfl⟩ := Yields.pure_iff.1 hy
    obtain ⟨-, rfl⟩ := Yields.pure_iff.1 hparams
    exact hm

theorem extractOperation_own (h : g.Beside s t)
    (ho : ∀ a, o.input = some a ∨ o.output = some a → a = "")
    (hy : Yields (extractOperation cat entry resource e o) t v t') : g.Beside s t' := by
  unfold extractOperation at hy
  split at hy
  · obtain ⟨call, m, hcall, hy⟩ := Yields.bind_iff.1 hy
    obtain rfl := yields_modifyEntry hy
    rw [hsource]
    exact (h.buildCall_own hsource hfile hname ho hcall).modifyEntry_own fun x hx => hx.withCall
  · obtain ⟨-, rfl⟩ := Yields.pure_iff.1 hy
    exact h

theorem extractExposure_own (h : g.Beside s t) (he : e.uriVariables = [])
    (ho : ∀ o ∈ e.operations, ∀ a, o.input = some a ∨ o.output = some a → a = "")
    (hy : Yields (extractExposure cat entry resource e) t v t') : g.Beside s t' := by
  obtain ⟨_, m, hopen, hy⟩ := Yields.bind_iff.1 hy
  obtain rfl := yields_modifyEntry hopen
  rw [hsource] at hy
  refine (Yields.forM_pass hy).invariant (I := fun m => g.Beside s m) ?_ ?_
  · exact h.modifyEntry_own fun x hx => hx.withBinding he
  · intro o hmem m m' hm hstep
    exact hm.extractOperation_own hsource hfile hname (ho o hmem) hstep

end Entry

theorem extractResource_own {a : String} (h : g.Beside s t) (hg : g.Stands cat shape)
    (hy : Yields (extractResource cat g.source) t a t') : g.Beside s t' := by
  unfold extractResource at hy
  simp only [hg.described] at hy
  obtain ⟨resource, m, hresource, hy⟩ := Yields.bind_iff.1 hy
  obtain ⟨hm, hname, -⟩ := h.extract_own hg hresource
  have hy := Yields.get_bind.1 hy
  rcases hget : m.operations.getOrCreate g.source resource.name ("endpoint/" ++ resource.name) with
    ⟨operations, entry⟩
  simp only [hget] at hy
  obtain ⟨_, m', hset, hy⟩ := Yields.bind_iff.1 hy
  obtain rfl := Yields.modify_iff.1 hset
  obtain ⟨_, m', hexposures, hy⟩ := Yields.bind_iff.1 hy
  obtain ⟨-, rfl⟩ := Yields.pure_iff.1 hy
  have hentry : g.Serves entry ∧ g.Beside s { m with operations := operations } := by
    unfold OperationRegistry.getOrCreate at hget
    cases hx : m.operations.get? g.source with
    | some x =>
      rw [hx] at hget
      obtain ⟨rfl, rfl⟩ := Prod.mk.inj hget
      exact ⟨hm.entry hx, hm⟩
    | none =>
      rw [hx] at hget
      obtain ⟨rfl, rfl⟩ := Prod.mk.inj hget
      have hserves : g.Serves (newEntry g.source resource) :=
        ⟨rfl, congrArg ("endpoint/" ++ ·) hname,
          by simp [newEntry, OrderedMap.values, OrderedMap.empty]⟩
      exact ⟨hserves, hm.insertEntry_own hserves⟩
  obtain ⟨hserves, hopened⟩ := hentry
  refine (Yields.forM_pass hexposures).invariant (I := fun m => g.Beside s m) hopened ?_
  intro e he m m' hm hstep
  exact hm.extractExposure_own hserves.source hserves.file hname (hg.standalone.unlinked e he)
    (hg.standalone.undealt e he) hstep

end Beside
end Guest
end HydraClient
