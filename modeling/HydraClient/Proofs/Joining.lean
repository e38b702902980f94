import HydraClient.Proofs.GuestSteps

/-! # A run that a guest joins

Classes are gone through in the order of the document, once for their types and once for their
operations. Those before the guest and those after it are taken up as they are without it, and
linking offers nothing to it and nothing of it. So the whole extraction arrives beside the guest.
-/
namespace HydraClient

open Metadata TypeRegistry Model

namespace Linking

variable {r : OperationRegistry} {o : Offer} {c : String}

theorem accept_erase (h : o.parent ≠ c) : (accept (r.erase c) o).1 = (accept r o).1.erase c := by
  have hget : (r.erase c).get? o.parent = r.get? o.parent := by
    rw [OrderedMap.get?_erase, if_neg h]
  unfold accept
  rw [hget]
  split
  · rfl
  · split
    · rfl
    · split
      · rfl
      · exact (OrderedMap.erase_insert_of_ne _ _ h).symm

theorem get?_accept_of_ne (h : o.parent ≠ c) : (accept r o).1.get? c = r.get? c := by
  rcases accept_cases r o with ⟨hr, -⟩ | ⟨target, b, symbol, -, -, -, -, hr⟩ <;> rw [hr]
  rw [OrderedMap.get?_insert, if_neg h.symm]

theorem link_erase (hoffers : ∀ e, r.get? c = some e → e.bindings.values.flatMap (offersOf e) = [])
    (hparents : ∀ o ∈ offers r, o.parent ≠ c) :
    (link (r.erase c)).1 = (link r).1.erase c ∧ (link r).1.get? c = r.get? c := by
  have hsame : offers (r.erase c) = offers r := OrderedMap.flatMap_values_erase hoffers
  rw [link_eq_foldl, link_eq_foldl, hsame]
  clear hoffers hsame
  generalize offers r = l at hparents
  induction l generalizing r with
  | nil => exact ⟨rfl, rfl⟩
  | cons o rest ih =>
    have ho := hparents o List.mem_cons_self
    obtain ⟨hrest, hget⟩ := ih (r := (accept r o).1) fun o' ho' =>
      hparents o' (List.mem_cons_of_mem _ ho')
    rw [List.foldl_cons, List.foldl_cons, accept_erase ho]
    exact ⟨hrest, hget.trans (get?_accept_of_ne ho)⟩

end Linking

namespace Phased

variable {cat : Catalog} {disk : Disk} {seeded modeled served d : Draft}

theorem closed_modeled (h : Phased cat disk seeded modeled served d) : modeled.types.Closed :=
  (TypeRegistry.Closed.of_exactly h.exactly).grows (.of_exactly h.exactly) h.extracted.growth

theorem closed_served (h : Phased cat disk seeded modeled served d) : served.types.Closed :=
  h.closed_modeled.grows h.traced_modeled h.bound.growth

theorem registered {c : String} (h : Phased cat disk seeded modeled served d)
    (hc : c ∈ cat.resources.filter cat.config.matchesNamespace) :
    ∃ n, served.types.sources.get? c = some n := by
  obtain ⟨ts, hmodels⟩ := h.models
  obtain ⟨t, ht⟩ := found_of_mapM h.exactly.coherent hmodels hc
  obtain ⟨n, hn, -⟩ := lookupSource_eq_some.1 ht
  exact (Grown.of_grows h.traced_modeled.coherent h.bound.growth).sources ⟨n, hn⟩

end Phased

namespace Guest

variable {g : Guest} {cat cat' : Catalog} {shape : ClassDecl} {s s' t t' : Draft} {c : String}
  {disk : Disk}

theorem Beside.mapM_around {α : Type} {f k : String → Drafting α} {before after : List String}
    {as bs : List α} (h : g.Beside s t)
    (hframed : ∀ done a rest as m, before ++ after = done ++ a :: rest →
      Yields (done.mapM f) s as m → FramedAt g m (f a) (k a))
    (hown : ∀ {m n b n'}, g.Beside m n → Yields (k c) n b n' → g.Beside m n')
    (hf : Yields ((before ++ after).mapM f) s as s')
    (hk : Yields ((before ++ c :: after).mapM k) t bs t') (habsent : g.Absent s'.types) :
    g.Beside s' t' := by
  rw [List.mapM_append] at hf hk
  obtain ⟨as₁, m, hf₁, hf⟩ := Yields.bind_iff.1 hf
  obtain ⟨as₂, m', hf₂, hf⟩ := Yields.bind_iff.1 hf
  obtain ⟨-, rfl⟩ := Yields.pure_iff.1 hf
  obtain ⟨bs₁, n, hk₁, hk⟩ := Yields.bind_iff.1 hk
  obtain ⟨bs₂, n', hk₂, hk⟩ := Yields.bind_iff.1 hk
  obtain ⟨-, rfl⟩ := Yields.pure_iff.1 hk
  rw [List.mapM_cons] at hk₂
  obtain ⟨b, n₁, hguest, hk₂⟩ := Yields.bind_iff.1 hk₂
  obtain ⟨bs₃, n₂, hk₃, hk₂⟩ := Yields.bind_iff.1 hk₂
  obtain ⟨-, rfl⟩ := Yields.pure_iff.1 hk₂
  have hframed₁ : FramedAt g s (before.mapM f) (before.mapM k) :=
    .mapM fun done a rest as m hsplit hy => hframed done a (rest ++ after) as m
      (by rw [hsplit, List.append_assoc, List.cons_append]) hy
  have hframed₂ : FramedAt g m (after.mapM f) (after.mapM k) :=
    .mapM fun done a rest as m' hsplit hy => by
      refine hframed (before ++ done) a rest (as₁ ++ as) m' ?_ ?_
      · rw [hsplit, List.append_assoc]
      · rw [List.mapM_append]
        exact Yields.bind_iff.2 ⟨as₁, m, hf₁,
          Yields.bind_iff.2 ⟨as, m', hy, Yields.pure_iff.2 ⟨rfl, rfl⟩⟩⟩
  obtain ⟨hgrown, -⟩ := hframed₂ _ _ hf₂
  have hm := hframed₁.beside h hf₁ hk₁ (habsent.of_grown hgrown)
  exact hframed₂.beside (hown hm hguest) hf₂ hk₃ habsent

structure Enters (g : Guest) (cat cat' : Catalog) (shape : ClassDecl) : Prop where
  joins : g.Joins cat cat'
  stands : g.Stands cat' shape
  plain : ClassName.relative g.source = g.source
  listed : ∃ before after, cat.resources.filter cat.config.matchesNamespace = before ++ after ∧
    cat'.resources.filter cat'.config.matchesNamespace = before ++ g.source :: after
  others : ∀ c ∈ cat.resources, ClassName.relative c ≠ g.source

namespace Enters

variable {seeded seeded' modeled modeled' served served' d d' : Draft}

theorem ne_source (he : g.Enters cat cat' shape) (hc : c ∈ cat.resources) : c ≠ g.source := by
  rintro rfl
  exact he.others _ hc he.plain

theorem mem_resources {done rest : List String}
    (h : cat.resources.filter cat.config.matchesNamespace = done ++ c :: rest) :
    c ∈ cat.resources := by
  have hmem : c ∈ cat.resources.filter cat.config.matchesNamespace := by simp [h]
  exact (List.mem_filter.1 hmem).1

theorem mem_served (he : g.Enters cat cat' shape) :
    g.source ∈ cat'.resources.filter cat'.config.matchesNamespace := by
  obtain ⟨before, after, -, hlisted⟩ := he.listed
  rw [hlisted]
  exact List.mem_append_right _ List.mem_cons_self

theorem framedAt_models (he : g.Enters cat cat' shape) (hs : Coherent s.types) :
    ∀ done c rest ts m, cat.resources.filter cat.config.matchesNamespace = done ++ c :: rest →
      Yields (done.mapM (extract cat)) s ts m → FramedAt g m (extract cat c) (extract cat' c) := by
  intro done c rest ts m hsplit hy
  exact framed_extract he.joins (he.others c (mem_resources hsplit)) m
    ((extracted_of_mapM hs hy).coherent hs)

theorem framedAt_operations (he : g.Enters cat cat' shape) (hs : Traced cat s.types)
    (hclosed : s.types.Closed) (hnone : s.operations = .empty) :
    ∀ done c rest cs m, cat.resources.filter cat.config.matchesNamespace = done ++ c :: rest →
      Yields (done.mapM (Operations.extractResource cat)) s cs m →
      FramedAt g m (Operations.extractResource cat c) (Operations.extractResource cat' c) := by
  intro done c rest cs m hsplit hy
  have hc := mem_resources hsplit
  have hnodup : (cat.resources.filter cat.config.matchesNamespace).Nodup :=
    cat.nodup_resources.sublist List.filter_sublist
  have hresources : ∀ a ∈ done, a ∈ cat.resources := fun a ha =>
    (List.mem_filter.1 (hsplit ▸ List.mem_append_left _ ha)).1
  rw [hsplit, List.nodup_append] at hnodup
  have hbound := Operations.bound_of_mapM hs.coherent hnone hresources hnodup.1 hy
  refine framedAt_extractResource he.joins (hbound.growth.coherent hs.coherent)
    (hbound.fresh fun hmem => hnodup.2.2 c hmem c (by simp) rfl) ?_ (he.others c hc)
    (he.ne_source hc)
  exact fun m' hx => (hclosed.grows hs hbound.growth).grows (hs.grows hbound.growth) hx.growth

theorem beside_models {ts ts' : List TypeEntry} (he : g.Enters cat cat' shape)
    (hs : Coherent seeded.types) (h : g.Beside seeded seeded')
    (hf : Yields (Model.extractAll cat) seeded ts modeled)
    (hk : Yields (Model.extractAll cat') seeded' ts' modeled') (habsent : g.Absent modeled.types) :
    g.Beside modeled modeled' := by
  obtain ⟨before, after, hlisted, hlisted'⟩ := he.listed
  have hframed := he.framedAt_models hs
  unfold Model.extractAll at hf hk
  rw [hlisted] at hf hframed
  rw [hlisted'] at hk
  exact h.mapM_around hframed (fun hm hy => (hm.extract_own he.stands hy).1) hf hk habsent

theorem beside_operations {cs cs' : List String} (he : g.Enters cat cat' shape)
    (hs : Traced cat modeled.types) (hclosed : modeled.types.Closed)
    (hnone : modeled.operations = .empty) (h : g.Beside modeled modeled')
    (hf : Yields (Operations.extractAll cat) modeled cs served)
    (hk : Yields (Operations.extractAll cat') modeled' cs' served')
    (habsent : g.Absent served.types) : g.Beside served served' := by
  obtain ⟨before, after, hlisted, hlisted'⟩ := he.listed
  have hframed := he.framedAt_operations hs hclosed hnone
  unfold Operations.extractAll at hf hk
  rw [hlisted] at hf hframed
  rw [hlisted'] at hk
  exact h.mapM_around hframed (fun hm hy => hm.extractResource_own he.stands hy) hf hk habsent

theorem parent_ne (he : g.Enters cat cat' shape) (hp : Phased cat disk seeded modeled served d)
    {o : Linking.Offer} (ho : o ∈ Linking.offers served.operations) : o.parent ≠ g.source := by
  intro hparent
  obtain ⟨child, hoffered⟩ : ∃ child, OfferedOn cat g.source o.key child :=
    ⟨o.child, (Operations.offered_iff hp).1 ⟨o, ho, by simp [Linking.meant, hparent], rfl⟩⟩
  obtain @⟨_, _, _, first, u, hclass, -, -, hfirst, hu, hto⟩ := hoffered
  obtain ⟨a, ha, hleads⟩ := Option.map_eq_some_iff.1 hto.fromClass
  exact he.joins.linked hclass.described first (List.mem_of_find?_eq_some hfirst) u
    (List.mem_filter.1 hu).1 a ha hleads

/-- Linking is done beside the guest, which takes no part in it. -/
theorem beside_link (he : g.Enters cat cat' shape)
    (hp : Phased cat disk seeded modeled served d) (h : g.Beside served served') :
    g.Beside { served with operations := (Linking.link served.operations).1 }
      { served' with operations := (Linking.link served'.operations).1 } := by
  have hoffers : ∀ e, served'.operations.get? g.source = some e →
      e.bindings.values.flatMap (Linking.offersOf e) = [] := by
    intro e hentry
    rw [List.flatMap_eq_nil_iff]
    intro b hb
    simp [Linking.offersOf, (h.entry hentry).links b hb]
  have hparents : ∀ o ∈ Linking.offers served'.operations, o.parent ≠ g.source := by
    have hsame : Linking.offers served.operations = Linking.offers served'.operations := by
      rw [h.operations_eq]
      exact OrderedMap.flatMap_values_erase hoffers
    rw [← hsame]
    exact fun o ho => he.parent_ne hp ho
  obtain ⟨herase, hget⟩ := Linking.link_erase hoffers hparents
  refine ⟨?_, h.hosts, fun hentry => h.entry (hget.symm.trans hentry)⟩
  rw [h.operations_eq, herase, ← h.hidden]
  rfl

/-- The whole extraction arrives beside the guest. -/
theorem beside (he : g.Enters cat cat' shape) (hp : Phased cat disk seeded modeled served d)
    (hp' : Phased cat' disk seeded' modeled' served' d') (habsent : g.Absent served.types) :
    g.Beside { served with operations := (Linking.link served.operations).1 }
      { served' with operations := (Linking.link served'.operations).1 } := by
  obtain ⟨ts, hmodels⟩ := hp.models
  obtain ⟨ts', hmodels'⟩ := hp'.models
  obtain ⟨cs, hoperations⟩ := hp.operations
  obtain ⟨cs', hoperations'⟩ := hp'.operations
  have hseed := hp'.seed
  rw [he.joins.config] at hseed
  obtain rfl : seeded' = seeded := (Prod.mk.inj (hseed.symm.trans hp.seed)).2
  have hnone : seeded'.operations = .empty := (BaseTypes.yields_seed hp.seed).2.1
  have hcoherent := hp.exactly.coherent
  have htraced := hp.traced_modeled
  have hclosed := hp.closed_modeled
  have hnone' : modeled.operations = .empty := hp.extracted.operations.trans hnone
  -- What is absent in the end has been absent all along.
  obtain ⟨hgrown, -⟩ :=
    FramedAt.mapM (he.framedAt_operations htraced hclosed hnone') _ _ hoperations
  have habsent₁ := habsent.of_grown hgrown
  obtain ⟨hgrown, -⟩ := FramedAt.mapM (he.framedAt_models hcoherent) _ _ hmodels
  have habsent₀ := habsent₁.of_grown hgrown
  have hseeded : g.Beside seeded' seeded' := by
    refine ⟨?_, .of_absent habsent₀, fun hentry => ?_⟩
    · simp only [hide, hideTypes_of_absent habsent₀, hnone]
      rw [← hnone, OrderedMap.erase_eq_self (by rw [hnone]; exact List.not_mem_nil)]
    · rw [hnone] at hentry
      cases hentry
  have hmodeled := he.beside_models hcoherent hseeded hmodels hmodels' habsent₁
  exact he.beside_link hp
    (he.beside_operations htraced hclosed hnone' hmodeled hoperations hoperations' habsent)

end Enters

end Guest
end HydraClient
