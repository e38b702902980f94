import HydraClient.Proofs.FramedExtraction
import HydraClient.Proofs.Mentions

/-! # Operations beside a guest

Filters look up the types that the properties of their resource mention. These are registered, so a
guest in the registry makes no difference to them, and the operations of a class are taken up beside
it as they are without it.
-/
namespace HydraClient

open Metadata TypeRegistry Model

namespace Filter

variable {r r' : TypeRegistry} {resource : TypeEntry} {filter : Metadata.Filter} {key n : String}
  {parameter : FilterParameter} {q : Property}

theorem dependOnType_congr (h : r'.get? n = r.get? n) :
    Deriving.dependOnType r' n = Deriving.dependOnType r n := by
  unfold Deriving.dependOnType
  rw [h]

theorem searchExpression_congr (h : ∀ n, q.Mentions n → r'.get? n = r.get? n) :
    searchExpression r' q parameter = searchExpression r q parameter := by
  unfold searchExpression
  cases hrelated : q.related.filter (· != "") with
  | none => rfl
  | some n =>
    have hn : q.related = some n := (Option.filter_eq_some_iff.1 hrelated).1
    simp only [dependOnType_congr (h n (.inl hn))]

theorem localProperty_bind_congr {α : Type} {path : String} {f k : Property → Deriving α}
    (h : ∀ p ∈ resource.properties.values, f p = k p) :
    (localProperty resource filter path >>= f) = (localProperty resource filter path >>= k) := by
  unfold localProperty
  dsimp only
  split
  · rename_i p hp
    rw [pure_bind, pure_bind]
    exact h p (OrderedMap.mem_values_iff.2 ⟨_, hp⟩)
  · rfl

variable (h : ∀ p ∈ resource.properties.values, ∀ n, p.Mentions n → r'.get? n = r.get? n)
include h

theorem searchField_congr :
    searchField r' resource filter key parameter = searchField r resource filter key parameter :=
  localProperty_bind_congr fun p hp => by rw [searchExpression_congr (h p hp)]

theorem backedEnumField_congr : backedEnumField r' resource filter key parameter =
    backedEnumField r resource filter key parameter := by
  refine localProperty_bind_congr fun p hp => ?_
  split
  · rename_i n hn
    rw [dependOnType_congr (h p hp n (.inr (Option.filter_eq_some_iff.1 hn).1))]
  · rfl

theorem derive_congr : derive r' resource filter = derive r resource filter := by
  unfold derive
  cases filter.kind with
  | search => simp only [search, searchField_congr h]
  | backedEnum => simp only [backedEnum, backedEnumField_congr h]
  | order | date | boolean | existence | range => rfl

end Filter

namespace Guest

open Operations

variable {g : Guest} {cat cat' : Catalog} {s t : Draft} {c : String} {resource : TypeEntry}
  {entry : EndpointEntry} {e : Exposure} {o : Operation} {operations : OperationRegistry}

theorem Joins.deriveFields (hj : g.Joins cat cat') (ht : g.Beside s t)
    (hknown : ∀ p ∈ resource.properties.values, s.types.Resolves p) :
    deriveFields cat' t.types resource o = deriveFields cat s.types resource o := by
  have hfilters : cat'.filtersOf o.filters = cat.filtersOf o.filters := by
    unfold Catalog.filtersOf
    rw [hj.filters]
  have hderive : ∀ f, Filter.derive t.types resource f = Filter.derive s.types resource f := by
    refine fun f => Filter.derive_congr fun p hp n hn => ?_
    obtain ⟨u, hu⟩ := hknown p hp n hn
    rw [hu, ht.get?_of_some hu]
  unfold Operations.deriveFields
  simp only [hfilters, hderive]

section Calls

variable (hj : g.Joins cat cat') (hentry : entry.source ≠ g.source)
  (hdealt : ∀ a, o.input = some a ∨ o.output = some a → ClassName.relative a ≠ g.source)

include hj

theorem framedAt_ioType {className : Option String} (hs : Coherent s.types)
    (hc : ∀ a, className = some a → ClassName.relative a ≠ g.source) :
    FramedAt g s (ioType cat className resource) (ioType cat' className resource) := by
  unfold ioType
  split
  · exact .pure _
  · rename_i a
    split
    · exact .pure _
    · apply framed_extract hj _ s hs
      rw [relative_relative]
      exact hc a rfl

theorem framedAt_listParams (hknown : ∀ p ∈ resource.properties.values, s.types.Resolves p) :
    FramedAt g s (listParams cat entry resource e o) (listParams cat' entry resource e o) := by
  have hfields : Operations.deriveFields cat' s.types resource o =
      Operations.deriveFields cat s.types resource o := by
    unfold Operations.deriveFields Catalog.filtersOf
    rw [hj.filters]
  unfold listParams
  dsimp only
  rw [hj.config]
  refine FramedAt.get_bind ?_ fun t ht => ?_
  · rw [hfields]
    split
    · exact .throw _
    · rename_i d _
      exact (FramedAt.register (listType_source (d := d))).bind fun _ _ _ _ => .pure _
  · rw [hj.deriveFields ht hknown, hfields]

include hentry hdealt

theorem framedAt_buildCall (hs : Coherent s.types)
    (hknown : ∀ p ∈ resource.properties.values, s.types.Resolves p) :
    FramedAt g s (buildCall cat entry resource e o) (buildCall cat' entry resource e o) := by
  unfold buildCall
  rw [hj.config]
  refine (FramedAt.lift _).bind fun kind m₀ _ h₀ => ?_
  refine (framedAt_ioType hj (h₀.coherent hs) fun a ha => hdealt a (.inl ha)).bind
    fun input m₁ _ h₁ => ?_
  have hm₁ := h₀.trans h₁
  refine (framedAt_ioType hj (hm₁.coherent hs) fun a ha => hdealt a (.inr ha)).bind
    fun output m₂ _ h₂ => ?_
  refine (FramedAt.modifyEntry hentry).bind fun _ m₃ _ h₃ => ?_
  have hm₃ := hm₁.trans (h₂.trans h₃)
  have hknown' : ∀ p ∈ resource.properties.values, m₃.types.Resolves p :=
    fun p hp n hn => hm₃.names (hknown p hp n hn)
  split
  · exact ((framedAt_listParams hj hknown').map some).bind fun _ _ _ _ => .pure _
  · exact (FramedAt.pure none).bind fun _ _ _ _ => .pure _

theorem framedAt_extractOperation (hs : Coherent s.types)
    (hknown : ∀ p ∈ resource.properties.values, s.types.Resolves p) :
    FramedAt g s (extractOperation cat entry resource e o)
      (extractOperation cat' entry resource e o) := by
  unfold extractOperation
  split
  · exact (framedAt_buildCall hj hentry hdealt hs hknown).bind fun _ _ _ _ => .modifyEntry hentry
  · exact .pure _

omit hdealt

theorem framedAt_extractExposure (hs : Coherent s.types)
    (hknown : ∀ p ∈ resource.properties.values, s.types.Resolves p)
    (hdealt : ∀ o ∈ e.operations, ∀ a, o.input = some a ∨ o.output = some a →
      ClassName.relative a ≠ g.source) :
    FramedAt g s (extractExposure cat entry resource e)
      (extractExposure cat' entry resource e) := by
  refine (FramedAt.modifyEntry hentry).bind fun _ m _ hm => .forM fun o ho m' hm' => ?_
  have hgrown := hm.trans hm'
  exact framedAt_extractOperation hj hentry (hdealt o ho) (hgrown.coherent hs)
    fun p hp n hn => hgrown.names (hknown p hp n hn)

end Calls

theorem getOrCreate_of_none (h : operations.get? c = none) :
    operations.getOrCreate c resource.name ("endpoint/" ++ resource.name) =
      (operations.insert c (newEntry c resource), newEntry c resource) := by
  simp [OperationRegistry.getOrCreate, h, newEntry]

theorem framedAt_extractResource (hj : g.Joins cat cat') (hs : Coherent s.types)
    (hfree : s.operations.get? c = none) (hclosed : ∀ m, Extracted cat s m → m.types.Closed)
    (hc : ClassName.relative c ≠ g.source) (hne : c ≠ g.source) :
    FramedAt g s (extractResource cat c) (extractResource cat' c) := by
  unfold extractResource
  rw [hj.class? hc]
  cases hshape : cat.class? c with
  | none => exact .throw _
  | some shape =>
    refine (framed_extract hj hc s hs).bind fun resource m hresource hm => ?_
    obtain ⟨hx, hl⟩ := extract_finds c hs hresource
    have hregistered := ((hx.coherent hs).of_lookupSource hl).2.1
    have hknown := (hclosed m hx _ _ hregistered).properties
    have hfree' : m.operations.get? c = none := by rw [hx.operations, hfree]
    have hexposures : FramedAt g
        { m with operations := m.operations.insert c (newEntry c resource) }
        (do
          shape.exposures.forM (extractExposure cat (newEntry c resource) resource)
          pure c)
        (do
          shape.exposures.forM (extractExposure cat' (newEntry c resource) resource)
          pure c) := by
      refine FramedAt.bind (.forM fun e he m' hm' => ?_) fun _ _ _ _ => .pure c
      exact framedAt_extractExposure hj hne ((hm.trans hm').coherent hs)
        (fun p hp n hn => hm'.names (hknown p hp n hn)) (hj.dealt hshape e he)
    intro a s' h
    have h := Yields.get_bind.1 h
    simp only [getOrCreate_of_none hfree'] at h
    obtain ⟨_, m', hset, h⟩ := Yields.bind_iff.1 h
    obtain rfl := Yields.modify_iff.1 hset
    obtain ⟨hgrown, hframed⟩ := hexposures a s' h
    refine ⟨hgrown, fun habsent t ht => ?_⟩
    obtain ⟨t', hy, ht'⟩ := hframed habsent _ (ht.insertEntry hne)
    have hnone : t.operations.get? c = none := by rw [ht.operations_get? hne, hfree']
    refine ⟨t', Yields.get_bind.2 ?_, ht'⟩
    simp only [getOrCreate_of_none hnone]
    exact Yields.bind_iff.2 ⟨⟨⟩, _, Yields.modify_iff.2 rfl, hy⟩

end Guest
end HydraClient
