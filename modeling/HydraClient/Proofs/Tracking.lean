import HydraClient.Proofs.Runs

/-! # Entries while their class is taken up

The entry of a class is opened without bindings. Each exposure opens a binding unless its symbol has
one, and each exposed operation then puts a call into the binding of its exposure. What these two
steps keep holds of the entry once all exposures are gone through.
-/
namespace HydraClient

open Metadata TypeRegistry

structure ServedClass (cat : Catalog) (className : String) (shape : ClassDecl) : Prop where
  resource : className ∈ cat.resources
  inNamespace : cat.config.matchesNamespace className = true
  described : cat.class? className = some shape

namespace Operations

/-- An entry with the binding of an exposure, which may be there already. -/
def withBinding (className : String) (resource : TypeEntry) (e : Exposure) (x : EndpointEntry) :
    EndpointEntry :=
  if x.bindings.contains (bindingSymbol className e) then x
  else { x with
    bindings := x.bindings.insert (bindingSymbol className e) (bareBinding className resource e) }

/-- What can be told of the entry of a class, given the exposures opened and the operations taken up
so far. It speaks of the bindings only, and both steps keep it. -/
structure Tracks (P : String → List Exposure → List (Exposure × Operation) → EndpointEntry → Prop) :
    Prop where
  start : ∀ className resource, P className [] [] (newEntry className resource)
  bindings : ∀ {className opened done x y}, P className opened done x →
    y.bindings = x.bindings → P className opened done y
  opening : ∀ {className opened done x} resource e, P className opened done x →
    P className (opened ++ [e]) done (withBinding className resource e x)
  call : ∀ {className opened done x e o k c}, P className opened done x → e ∈ opened →
    kind? o = some k → c.name = OperationKind.nameOf o k →
    P className opened (done ++ [(e, o)]) (withCall (bindingSymbol className e) c x)

variable {P : String → List Exposure → List (Exposure × Operation) → EndpointEntry → Prop}
  {cat : Catalog} {disk : Disk} {r₀ : TypeRegistry} {s₀ s s' seeded modeled served d : Draft}
  {className : String} {resource : TypeEntry} {shape : ClassDecl} {e : Exposure} {o : Operation}
  {opened : List Exposure} {done : List (Exposure × Operation)} {u : Unit}

def InEntry (P : EndpointEntry → Prop) (s : Draft) (className : String) : Prop :=
  ∃ x, s.operations.get? className = some x ∧ P x

theorem InEntry.modify {f : EndpointEntry → EndpointEntry} {P Q : EndpointEntry → Prop}
    (h : InEntry P s className) (hs' : s'.operations = s.operations.modify className f)
    (hf : ∀ x, P x → Q (f x)) : InEntry Q s' className := by
  obtain ⟨x, hx, hP⟩ := h
  exact ⟨f x, by rw [hs', OrderedMap.get?_modify, if_pos rfl, hx, Option.map_some], hf x hP⟩

theorem bindings_addImport (x : EndpointEntry) (file : Option String) (n : String) :
    (x.addImport file n).bindings = x.bindings := rfl

theorem operations_of_buildCall {entry : EndpointEntry} {c : Call} (hs : Coherent s.types)
    (hl : s.types.lookupSource className = some resource)
    (hy : Yields (buildCall cat entry resource e o) s c s') :
    ∃ k f, kind? o = some k ∧ c.name = OperationKind.nameOf o k ∧
      (∀ x : EndpointEntry, (f x).bindings = x.bindings) ∧
      s'.operations = s.operations.modify entry.source f := by
  obtain ⟨kind, hkind, hy⟩ := Yields.lift_bind.1 hy
  obtain ⟨input, m₁, hinput, hy⟩ := Yields.bind_iff.1 hy
  obtain ⟨output, m₂, houtput, hy⟩ := Yields.bind_iff.1 hy
  obtain ⟨_, m₃, himports, hy⟩ := Yields.bind_iff.1 hy
  obtain rfl := yields_modifyEntry himports
  obtain ⟨hx₁, -⟩ := ioType_finds hs hl hinput
  obtain ⟨hx₂, -⟩ := ioType_finds (hx₁.coherent hs) (hx₁.kept.lookupSource hl) houtput
  have hkind? : kind? o = some kind := by simp [kind?, hkind, Except.toOption]
  have hkept : c.name = OperationKind.nameOf o kind ∧
      s'.operations = m₂.operations.modify entry.source fun x =>
        (x.addImport input.file input.name).addImport output.file output.name := by
    split at hy
    · obtain ⟨params, m, hparams, hy⟩ := Yields.bind_iff.1 hy
      obtain ⟨rfl, rfl⟩ := Yields.pure_iff.1 hy
      obtain ⟨n, hname, -⟩ := Yields.map_iff.1 hparams
      obtain ⟨-, d, -, -, rfl⟩ := yields_listParams hname
      exact ⟨rfl, rfl⟩
    · obtain ⟨params, m, hparams, hy⟩ := Yields.bind_iff.1 hy
      obtain ⟨rfl, rfl⟩ := Yields.pure_iff.1 hy
      obtain ⟨-, rfl⟩ := Yields.pure_iff.1 hparams
      exact ⟨rfl, rfl⟩
  refine ⟨kind, fun x => (x.addImport input.file input.name).addImport output.file output.name,
    hkind?, hkept.1, fun x => by rw [bindings_addImport, bindings_addImport], ?_⟩
  rw [hkept.2, hx₂.operations, hx₁.operations]

namespace Tracks

theorem of_extractOperation (hP : Tracks P) (hs : Coherent s.types)
    (hl : s.types.lookupSource className = some resource) (he : e ∈ opened)
    (h : InEntry (P className opened done) s className)
    (hy : Yields (extractOperation cat (newEntry className resource) resource e o) s u s') :
    InEntry (P className opened (done ++ ([o].filter (·.exposed)).map fun o => (e, o))) s'
      className := by
  unfold extractOperation at hy
  split at hy
  · rename_i hexposed
    have hdone : ([o].filter (·.exposed)).map (fun o => (e, o)) = [(e, o)] := by simp [hexposed]
    rw [hdone]
    obtain ⟨call, m, hcall, hy⟩ := Yields.bind_iff.1 hy
    obtain rfl := yields_modifyEntry hy
    obtain ⟨k, f, hkind, hname, hf, hoperations⟩ := operations_of_buildCall hs hl hcall
    have hm : InEntry (P className opened done) m className :=
      h.modify hoperations fun x hx => hP.bindings hx (hf x)
    exact hm.modify rfl fun x hx => hP.call hx he hkind hname
  · rename_i hexposed
    obtain ⟨-, rfl⟩ := Yields.pure_iff.1 hy
    simpa [hexposed] using h

section Class

variable (hP : Tracks P) (ha : className ∈ cat.resources) (hc : cat.class? className = some shape)
  (hg : Grows cat r₀ s₀.types) (hs₀ : Coherent s₀.types)
  (hl : s₀.types.lookupSource className = some resource)
include hP ha hc hg hs₀ hl

theorem of_extractExposure (hserving : Serving cat r₀ s₀ className resource done s)
    (h : InEntry (P className opened done) s className) (he : e ∈ shape.exposures)
    (hy : Yields (extractExposure cat (newEntry className resource) resource e) s u s') :
    InEntry (P className (opened ++ [e]) (done ++ declared [e])) s' className := by
  obtain ⟨_, m, hopen, hy⟩ := Yields.bind_iff.1 hy
  have hm := hserving.of_openBinding hopen
  have hopened : InEntry (P className (opened ++ [e]) done) m className := by
    obtain rfl := yields_modifyEntry hopen
    exact h.modify rfl fun x hx => hP.opening resource e hx
  -- The types of a call are looked up in a coherent registry, so the class is served along the way.
  have hpass := (Yields.forM_pass hy).prefix_invariant
    (I := fun before m =>
      Serving cat r₀ s₀ className resource
        (done ++ (before.filter (·.exposed)).map fun o => (e, o)) m ∧
      InEntry (P className (opened ++ [e])
        (done ++ (before.filter (·.exposed)).map fun o => (e, o))) m className)
    ⟨by simpa using hm, by simpa using hopened⟩
    fun before o after m m' hsplit hI hR => by
      have hnext := serving_of_extractOperation ha hc hg hs₀ hl hI.1 he (by simp [hsplit]) hR
      have htracked := hP.of_extractOperation (hI.1.coherent hs₀) (hI.1.found hs₀ hl)
        (by simp) hI.2 hR
      exact ⟨by simpa using hnext, by simpa using htracked⟩
  simpa [declared] using hpass.2

theorem of_exposures (hserving : Serving cat r₀ s₀ className resource [] s)
    (h : InEntry (P className [] []) s className)
    (hy : Yields (shape.exposures.forM (extractExposure cat (newEntry className resource) resource))
      s u s') : InEntry (P className shape.exposures (declared shape.exposures)) s' className :=
  ((Yields.forM_pass hy).prefix_invariant
    (I := fun before m => Serving cat r₀ s₀ className resource (declared before) m ∧
      InEntry (P className before (declared before)) m className) ⟨hserving, h⟩
    fun before e after m m' hsplit hI hR => by
      have he : e ∈ shape.exposures := by simp [hsplit]
      have hnext := serving_of_extractExposure ha hc hg hs₀ hl hI.1 he hR
      have htracked := hP.of_extractExposure ha hc hg hs₀ hl hI.1 hI.2 he hR
      exact ⟨by simpa [declared] using hnext, by simpa [declared] using htracked⟩).2

end Class

def All (P : String → List Exposure → List (Exposure × Operation) → EndpointEntry → Prop)
    (cat : Catalog) (done : List String) (s : Draft) : Prop :=
  ∀ c ∈ done, ∃ shape, cat.class? c = some shape ∧
    InEntry (P c shape.exposures (declared shape.exposures)) s c

theorem all_of_extractResource {before : List String} {c : String} (hP : Tracks P)
    (h : All P cat before s) (hbound : Bound cat s₀ before s) (hs₀ : Coherent s₀.types)
    (ha : className ∈ cat.resources) (hnew : className ∉ before)
    (hy : Yields (extractResource cat className) s c s') :
    All P cat (before ++ [className]) s' := by
  have hs := hbound.growth.coherent hs₀
  obtain ⟨shape, resource, m, _, hc, hx, hl, hexposures⟩ :=
    yields_extractResource hs (hbound.fresh hnew) hy
  have hm := hx.coherent hs
  have hgrown := hbound.growth.trans hx.growth
  have hserving : Serving cat s₀.types m className resource []
      { m with operations := m.operations.insert className (newEntry className resource) } :=
    serving_newEntry m
  intro a hmem
  rcases List.mem_append.1 hmem with hmem | hmem
  · obtain ⟨shape', hshape', x, hget, hx'⟩ := h a hmem
    have hne : a ≠ className := fun heq => hnew (heq ▸ hmem)
    have hserved := serving_of_exposures ha hc hgrown hm hl hserving hexposures
    exact ⟨shape', hshape', x, by rw [hserved.others hne, hx.operations, hget], hx'⟩
  · obtain rfl := List.mem_singleton.1 hmem
    refine ⟨shape, hc, hP.of_exposures ha hc hgrown hm hl hserving ?_ hexposures⟩
    exact ⟨_, by rw [OrderedMap.get?_insert, if_pos rfl], hP.start a resource⟩

theorem all_of_extractAll {cs : List String} (hP : Tracks P) (hs : Coherent s.types)
    (hnone : s.operations = .empty) (hy : Yields (extractAll cat) s cs s') :
    All P cat (cat.resources.filter cat.config.matchesNamespace) s' := by
  have hnodup : (cat.resources.filter cat.config.matchesNamespace).Nodup :=
    cat.nodup_resources.sublist List.filter_sublist
  have hempty : Bound cat s [] s := ⟨.refl, rfl, fun hget => by simp [hnone] at hget⟩
  refine ((Yields.mapM_pass hy).prefix_invariant
    (I := fun done m => Bound cat s done m ∧ All P cat done m)
    ⟨hempty, fun c hc => by cases hc⟩ fun before c after m m' hsplit hI hR => ?_).2
  obtain ⟨b, hb⟩ := hR
  have hc : c ∈ cat.resources.filter cat.config.matchesNamespace := by simp [hsplit]
  rw [hsplit, List.nodup_append] at hnodup
  have hnew : c ∉ before := fun hmem => hnodup.2.2 c hmem c (by simp) rfl
  have hserved := (List.mem_filter.1 hc).1
  exact ⟨hI.1.of_extractResource hs hserved hnew hb,
    hP.all_of_extractResource hI.2 hI.1 hs hserved hnew hb⟩

/-- What is tracked holds of the entry of every class that is served. -/
theorem of_served (hP : Tracks P) (hp : Phased cat disk seeded modeled served d)
    (hc : ServedClass cat className shape) :
    InEntry (P className shape.exposures (declared shape.exposures)) served className := by
  obtain ⟨cs, hoperations⟩ := hp.operations
  have hnone : modeled.operations = .empty :=
    hp.extracted.operations.trans (BaseTypes.yields_seed hp.seed).2.1
  have hall := hP.all_of_extractAll (hp.extracted.coherent hp.exactly.coherent) hnone hoperations
  obtain ⟨shape', hshape', h⟩ :=
    hall className (List.mem_filter.2 ⟨hc.resource, hc.inNamespace⟩)
  obtain rfl := Option.some.inj (hc.described.symm.trans hshape')
  exact h

end Tracks

end Operations

end HydraClient
