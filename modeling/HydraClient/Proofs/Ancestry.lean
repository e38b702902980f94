import HydraClient.Proofs.Reachability
import HydraClient.Proofs.Spellings

/-! # Ancestors of classes

A class inherits from its parent if the parent is described. What its type says of a field depends
on the type of the parent as it stood when the field was looked at, and that type only gains fields.
-/
namespace HydraClient

open Metadata TypeRegistry Model

section Classes

variable {cat : Catalog} {c n m x : String} {f : Field}

/-- A class has a described parent, under the name that the class gives it. -/
def Catalog.Inherits (cat : Catalog) (c n : String) : Prop :=
  cat.HasParent c n ∧ n ≠ "" ∧ cat.classify n = .model

def Catalog.HasField (cat : Catalog) (c : String) (f : Field) : Prop :=
  ∃ shape, cat.class? c = some shape ∧ f ∈ shape.fields ∧ f.isExposed = true

def Catalog.Exposes (cat : Catalog) (c x : String) : Prop := ∃ f, cat.HasField c f ∧ f.name = x

theorem Catalog.Inherits.leads (h : cat.Inherits c n) : Leads cat c n := by
  obtain ⟨⟨shape, hc, hp⟩, hne, hm⟩ := h
  exact .parent hc hp hne hm

theorem Catalog.Inherits.unique (hn : cat.Inherits c n) (hm : cat.Inherits c m) : n = m := by
  obtain ⟨⟨shape, hc, hp⟩, -⟩ := hn
  obtain ⟨⟨shape', hc', hp'⟩, -⟩ := hm
  obtain rfl := Option.some.inj (hc.symm.trans hc')
  exact Option.some.inj (hp.symm.trans hp')

theorem Catalog.Inherits.parentOf_eq {shape : ClassDecl} (h : cat.Inherits c n)
    (hc : cat.class? c = some shape) (r : TypeRegistry) :
    parentOf cat r shape = r.lookupSource n := by
  obtain ⟨⟨shape', hc', hp⟩, hne, hm⟩ := h
  obtain rfl := Option.some.inj (hc.symm.trans hc')
  simp [parentOf, hp, hne, hm]

theorem exists_inherits_of_parentOf {r : TypeRegistry} {shape : ClassDecl} {u : TypeEntry}
    (hc : cat.class? c = some shape) (h : parentOf cat r shape = some u) :
    ∃ n, cat.Inherits c n ∧ r.lookupSource n = some u := by
  unfold parentOf at h
  split at h
  · cases h
  · rename_i n hp
    split at h
    · cases h
    · rename_i hn
      simp only [Bool.or_eq_true, decide_eq_true_eq, bne_iff_ne, not_or, Decidable.not_not] at hn
      exact ⟨n, ⟨⟨shape, hc, hp⟩, hn⟩, h⟩

theorem Catalog.HasField.unique {doc : Document} {g : Field} (hdistinct : doc.FieldsDistinct)
    (hf : (Catalog.ofDocument doc).HasField c f) (hg : (Catalog.ofDocument doc).HasField c g)
    (hname : f.name = g.name) : f = g := by
  obtain ⟨shape, hc, hf, -⟩ := hf
  obtain ⟨shape', hc', hg, -⟩ := hg
  obtain rfl := Option.some.inj (hc.symm.trans hc')
  have hnodup := hdistinct shape (Catalog.mem_classes_of_class? hc).1
  exact List.inj_on_of_nodup_map hnodup hf hg hname

end Classes

def TypeRegistry.ClassType (r : TypeRegistry) (c : String) (t : TypeEntry) : Prop :=
  r.lookupSource c = some t ∧ t.hasFactory = true

/-- Sources keep their order, and the type of a known class is the one that it had, with more
properties at most. -/
structure Later (r r' : TypeRegistry) : Prop where
  order : r.sources.keys <+: r'.sources.keys
  types : ∀ {c u}, r.Knows c → r'.ClassType c u →
    ∃ v, r.ClassType c v ∧ v.name = u.name ∧ v.properties.keys ⊆ u.properties.keys

section Later

variable {cat : Catalog} {r r' : TypeRegistry} {t : TypeEntry} {c name : String}

theorem knows_iff : r.Knows c ↔ c ∈ r.sources.keys := OrderedMap.mem_keys_iff.symm

theorem Later.knows (h : Later r r') (hc : r.Knows c) : r'.Knows c :=
  knows_iff.2 (h.order.subset (knows_iff.1 hc))

theorem Later.refl (r : TypeRegistry) : Later r r :=
  ⟨List.prefix_rfl, fun _ hu => ⟨_, hu, rfl, List.Subset.refl _⟩⟩

theorem Later.trans {r'' : TypeRegistry} (h : Later r r') (h' : Later r' r'') : Later r r'' where
  order := h.order.trans h'.order
  types hc hu := by
    obtain ⟨v, hv, hname, hkeys⟩ := h'.types (h.knows hc) hu
    obtain ⟨w, hw, hname', hkeys'⟩ := h.types hc hv
    exact ⟨w, hw, hname'.trans hname, List.Subset.trans hkeys' hkeys⟩

theorem prefix_keys_put (ht : t.source = some c) :
    r.sources.keys <+: (r.put t).sources.keys := by
  rw [sources_put ht, OrderedMap.keys_insert]
  split
  · exact List.prefix_rfl
  · exact List.prefix_append _ _

theorem Later.put (hr : Coherent r) (hl : r.lookupSource c = none) (hfree : r.get? t.name = none)
    (ht : t.source = some c) : Later r (r.put t) where
  order := prefix_keys_put ht
  types {n u} hn hu := by
    have hne : n ≠ c := by
      rintro rfl
      obtain ⟨m, hm⟩ := hn
      obtain ⟨v, hv, -⟩ := hr.sourced hm
      rw [lookupSource_eq_some.2 ⟨m, hm, hv⟩] at hl
      cases hl
    have hold := hr.lookupSource_put_of_ne hfree ht hne
    exact ⟨u, ⟨hold.symm.trans hu.1, hu.2⟩, rfl, List.Subset.refl _⟩

theorem Later.modify {f : TypeEntry → TypeEntry} (hf : ∀ t, (f t).head = t.head)
    (hkeys : ∀ t, t.properties.keys ⊆ (f t).properties.keys) : Later r (r.modify name f) where
  order := List.prefix_rfl
  types {n u} _ hu := by
    obtain ⟨hu, hmade⟩ := hu
    rw [lookupSource_modify] at hu
    split at hu
    · obtain ⟨v, hv, rfl⟩ := Option.map_eq_some_iff.1 hu
      have hmade' : v.hasFactory = true := (TypeEntry.hasFactory_of_head (hf v)).symm.trans hmade
      exact ⟨v, ⟨hv, hmade'⟩, (TypeEntry.name_of_head (hf v)).symm, hkeys v⟩
    · exact ⟨u, ⟨hu, hmade⟩, rfl, List.Subset.refl _⟩

/-- A type that is no interface of a class hides at most what had its source. -/
theorem Later.put_plain (ht : t.source = some c) (hplain : t.hasFactory = false) :
    Later r (r.put t) where
  order := prefix_keys_put ht
  types {n u} _ hu := by
    obtain ⟨hu, hmade⟩ := hu
    obtain ⟨m, hm, hget⟩ := lookupSource_eq_some.1 hu
    have hold : m ≠ t.name := by
      rintro rfl
      rw [get?_put, if_pos rfl] at hget
      obtain rfl := Option.some.inj hget
      rw [hplain] at hmade
      cases hmade
    rw [get?_put, if_neg hold] at hget
    rw [sources_put ht, OrderedMap.get?_insert] at hm
    split at hm
    · exact absurd (Option.some.inj hm).symm hold
    · exact ⟨u, ⟨lookupSource_eq_some.2 ⟨m, hm, hget⟩, hmade⟩, rfl, List.Subset.refl _⟩

theorem keys_subset_addProperty (t : TypeEntry) (p : Property) :
    t.properties.keys ⊆ (t.addProperty p).properties.keys := by
  rw [TypeEntry.addProperty, OrderedMap.keys_insert]
  split
  · exact List.Subset.refl _
  · exact List.subset_append_left _ _

theorem keys_subset_withParent (p t : TypeEntry) :
    t.properties.keys ⊆ (withParent p t).properties.keys := by
  rw [withParent_properties]
  exact List.Subset.refl _

theorem Growth.later (h : Growth cat r r') (hr : Coherent r) : Later r r' := by
  cases h with
  | opened _ hl hn => exact .put hr hl (hr.resolveName_fresh hl hn) rfl
  | enumerated _ _ hl hn _ => exact .put hr hl (hr.resolveName_fresh hl hn) rfl
  | extended => exact .modify (head_withParent _) (keys_subset_withParent _)
  | addressed => exact .modify head_withAddress fun _ => List.Subset.refl _
  | filled => exact .modify (fun t => t.head_addProperty _) (keys_subset_addProperty · _)
  | @listed entry _ resource e o d =>
    have hhead := Operations.listType_head cat.config entry resource e o d
    exact .put_plain Operations.listType_source (congrArg TypeEntry.hasFactory hhead :)

theorem Grows.later (h : Grows cat r r') (hr : Coherent r) : Later r r' := by
  induction h with
  | refl => exact .refl r
  | tail hg step ih => exact ih.trans (step.later (Grows.coherent hg hr))

end Later

/-- Every property of an interface is filed under its name, and something holds of it and the class
that the interface is made for. -/
structure EveryProperty (Q : TypeRegistry → String → Property → Prop) (r : TypeRegistry) :
    Prop where
  holds : ∀ {n t c x p}, r.get? n = some t → t.hasFactory = true → t.source = some c →
    t.properties.get? x = some p → p.name = x ∧ Q r c p

section EveryProperty

variable {cat : Catalog} {Q : TypeRegistry → String → Property → Prop} {r r' : TypeRegistry}

theorem EveryProperty.of_later (h : EveryProperty Q r)
    (hQ : ∀ {c p}, Q r c p → Q r' c p)
    (hnew : ∀ {n t c x p}, r'.get? n = some t → t.hasFactory = true → t.source = some c →
      t.properties.get? x = some p →
      (∃ u, r.get? n = some u ∧ u.hasFactory = true ∧ u.source = some c ∧
        u.properties.get? x = some p) ∨ p.name = x ∧ Q r' c p) : EveryProperty Q r' := by
  refine ⟨fun ht hmade hs hp => ?_⟩
  rcases hnew ht hmade hs hp with ⟨u, hu, hmade', hs', hp'⟩ | hp
  · obtain ⟨hname, hq⟩ := h.holds hu hmade' hs' hp'
    exact ⟨hname, hQ hq⟩
  · exact hp

theorem EveryProperty.put {t : TypeEntry} (h : EveryProperty Q r)
    (hQ : ∀ {c p}, Q r c p → Q (r.put t) c p)
    (ht : t.hasFactory = true → t.properties = .empty) : EveryProperty Q (r.put t) := by
  refine h.of_later hQ fun {n u c x p} hu hmade hs hp => .inl ?_
  rw [get?_put] at hu
  split at hu
  · obtain rfl := Option.some.inj hu
    rw [ht hmade] at hp
    cases hp
  · exact ⟨u, hu, hmade, hs, hp⟩

theorem EveryProperty.modify {name : String} {f : TypeEntry → TypeEntry} (h : EveryProperty Q r)
    (hQ : ∀ {c p}, Q r c p → Q (r.modify name f) c p) (hf : ∀ t, (f t).head = t.head)
    (hnew : ∀ {t c x p}, r.get? name = some t → t.hasFactory = true → t.source = some c →
      (f t).properties.get? x = some p →
      t.properties.get? x = some p ∨ p.name = x ∧ Q (r.modify name f) c p) :
    EveryProperty Q (r.modify name f) := by
  refine h.of_later hQ fun {n u c x p} hu hmade hs hp => ?_
  rw [get?_modify] at hu
  split at hu
  · rename_i hn
    subst hn
    obtain ⟨v, hv, rfl⟩ := Option.map_eq_some_iff.1 hu
    have hmade' : v.hasFactory = true := (TypeEntry.hasFactory_of_head (hf v)).symm.trans hmade
    have hs' := (TypeEntry.source_of_head (hf v)).symm.trans hs
    exact (hnew hv hmade' hs' hp).imp_left fun hp => ⟨v, hv, hmade', hs', hp⟩
  · exact .inl ⟨u, hu, hmade, hs, hp⟩

/-- What stays true of properties in registries with an invariant, and is true of them when they are
new, in registries where it is true of all others. -/
structure Established (cat : Catalog) (G : TypeRegistry → Prop)
    (Q : TypeRegistry → String → Property → Prop) : Prop where
  invariant : ∀ {r r'}, G r → Growth cat r r' → G r'
  stays : ∀ {r r' c p}, G r → Growth cat r r' → Q r c p → Q r' c p
  new : ∀ {r name c shape f p}, G r → EveryProperty Q r →
    Growth cat r (r.modify name (·.addProperty p)) → Opened cat r name c shape →
    f ∈ shape.fields → f.isExposed = true → p.name = f.name →
    p.inherited = isInherited c f (parentOf cat r shape) →
    Q (r.modify name (·.addProperty p)) c p

theorem Grows.everyProperty {G : TypeRegistry → Prop} (hQ : Established cat G Q)
    (h : Grows cat r r') (hr : G r) (hI : EveryProperty Q r) : G r' ∧ EveryProperty Q r' := by
  induction h with
  | refl => exact ⟨hr, hI⟩
  | @tail m m' hg step ih =>
    obtain ⟨hm, ih⟩ := ih
    refine ⟨hQ.invariant hm step, ?_⟩
    have hkeep : ∀ {c p}, Q m c p → Q m' c p := hQ.stays hm step
    cases step with
    | opened => exact ih.put hkeep fun _ => rfl
    | enumerated => exact ih.put hkeep nofun
    | @extended name _ _ q =>
      refine ih.modify hkeep (head_withParent q) fun _ _ _ hp => .inl ?_
      rwa [withParent_properties] at hp
    | addressed => exact ih.modify hkeep head_withAddress fun _ _ _ hp => .inl hp
    | @filled name c shape f q ho hf hexposed hbuilt hfresh =>
      have hsame := hbuilt.sameField
      have hstep := Growth.filled ho hf hexposed hbuilt hfresh
      have hq := hQ.new hm ih hstep ho hf hexposed hsame.name hsame.inherited
      refine ih.modify hkeep (fun t => t.head_addProperty q) fun {t c' x p} ht hmade hs hp => ?_
      rw [TypeEntry.addProperty, OrderedMap.get?_insert] at hp
      split at hp
      · rename_i hx
        obtain rfl := Option.some.inj hp
        obtain ⟨u, hu, hhead⟩ := ho.registered
        obtain rfl := Option.some.inj (ht.symm.trans hu)
        have hsource : t.source = some c := TypeEntry.source_of_head hhead
        obtain rfl := Option.some.inj (hs.symm.trans hsource)
        exact .inr ⟨hx.symm, hq⟩
      · exact .inl hp
    | @listed entry _ resource e o d =>
      have hhead := Operations.listType_head cat.config entry resource e o d
      have hplain : (Operations.listType cat.config entry resource e o d).hasFactory = false :=
        (congrArg TypeEntry.hasFactory hhead :)
      exact ih.put hkeep fun hmade => by simp [hplain] at hmade

end EveryProperty

theorem hasFactory_of_exactly {cat : Catalog} {r : TypeRegistry} {n : String} {t : TypeEntry}
    (h : BaseTypes.Exactly (BaseTypes.all cat.config.hydraStart) r) (ht : r.get? n = some t) :
    t.hasFactory = false := (BaseTypes.shared_of_mem (h.among ht)).hasFactory

/-- What is established along the way holds of every property after a run. -/
theorem Phased.everyProperty {cat : Catalog} {disk : Disk} {seeded modeled served d : Draft}
    {G : TypeRegistry → Prop} {Q : TypeRegistry → String → Property → Prop}
    (hp : Phased cat disk seeded modeled served d) (hQ : Established cat G Q)
    (hseeded : G seeded.types) : EveryProperty Q d.types := by
  have hgrows : Grows cat seeded.types d.types := by
    rw [hp.types_eq]
    exact hp.extracted.growth.trans hp.bound.growth
  refine (hgrows.everyProperty hQ hseeded ⟨fun ht hmade => ?_⟩).2
  rw [hasFactory_of_exactly hp.exactly ht] at hmade
  cases hmade

/-- A property stands for a field of its class. It is inherited if the field is said to be of
another class, or else only if the parent has a property of the name. -/
def Justified (cat : Catalog) (r : TypeRegistry) (c : String) (p : Property) : Prop :=
  ∃ f, cat.HasField c f ∧ f.name = p.name ∧
    (∀ b, f.declaredBy = some b → p.inherited = (ClassName.relative b != c)) ∧
    (f.declaredBy = none → p.inherited = true → ∃ n, cat.Inherits c n ∧ r.Knows n ∧
      ∀ u, r.ClassType n u → p.name ∈ u.properties.keys)

theorem Justified.later {cat : Catalog} {r r' : TypeRegistry} {c : String} {p : Property}
    (h : Justified cat r c p) (hl : Later r r') : Justified cat r' c p := by
  obtain ⟨f, hf, hname, hdeclared, hinherited⟩ := h
  refine ⟨f, hf, hname, hdeclared, fun hnone hp => ?_⟩
  obtain ⟨n, hn, hknown, hkeys⟩ := hinherited hnone hp
  refine ⟨n, hn, hl.knows hknown, fun u hu => ?_⟩
  obtain ⟨v, hv, -, hsub⟩ := hl.types hknown hu
  exact hsub (hkeys v hv)

theorem Justified.new {cat : Catalog} {r : TypeRegistry} {c : String} {shape : ClassDecl}
    {f : Field} {p : Property} (hr : Coherent r) (hc : cat.class? c = some shape)
    (hf : f ∈ shape.fields) (hexposed : f.isExposed = true) (hname : p.name = f.name)
    (hinherited : p.inherited = isInherited c f (parentOf cat r shape)) : Justified cat r c p := by
  refine ⟨f, ⟨shape, hc, hf, hexposed⟩, hname.symm, fun b hb => ?_, fun hnone hp => ?_⟩
  · rw [hinherited, isInherited, hb]
  · simp only [hp, isInherited, hnone] at hinherited
    cases hparent : parentOf cat r shape with
    | none => simp [hparent] at hinherited
    | some v =>
      obtain ⟨n, hn, hl⟩ := exists_inherits_of_parentOf hc hparent
      refine ⟨n, hn, ⟨_, (hr.of_lookupSource hl).1⟩, fun u hu => ?_⟩
      obtain rfl := Option.some.inj (hl.symm.trans hu.1)
      simpa [hparent, OrderedMap.contains_iff, hname] using hinherited.symm

theorem established_justified (cat : Catalog) : Established cat Coherent (Justified cat) where
  invariant hr hg := hg.coherent hr
  stays hr hg h := h.later (hg.later hr)
  new hr _ hg ho hf hexposed hname hinherited :=
    (Justified.new hr ho.described hf hexposed hname hinherited).later (hg.later hr)

theorem Phased.justified {cat : Catalog} {disk : Disk} {seeded modeled served d : Draft}
    (hp : Phased cat disk seeded modeled served d) : EveryProperty (Justified cat) d.types :=
  hp.everyProperty (established_justified cat) hp.exactly.coherent

theorem Phased.exposes_of_mem_keys {cat : Catalog} {disk : Disk}
    {seeded modeled served d : Draft} {c x : String} {u : TypeEntry}
    (hp : Phased cat disk seeded modeled served d) (hu : d.types.ClassType c u)
    (hx : x ∈ u.properties.keys) : cat.Exposes c x := by
  obtain ⟨-, hget, hs⟩ := hp.coherent.of_lookupSource hu.1
  obtain ⟨p, hp'⟩ := OrderedMap.mem_keys_iff.1 hx
  obtain ⟨rfl, f, hf, hname, -⟩ := hp.justified.holds hget hu.2 hs hp'
  exact ⟨f, hf, hname⟩

end HydraClient
