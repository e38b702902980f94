import HydraClient.Proofs.Factories
import HydraClient.Proofs.Inheritance
import HydraClient.Proofs.InterfaceText
import Mathlib.Data.Set.Card

/-! # Lines of fields

An inherited property has no line in the interface of its class. The line is found further up along
the rendered parents, unless the class was told that a field belongs to a class from where it does
not get it.
-/
namespace HydraClient

open Metadata TypeRegistry Model Inheritance

section Lines

variable {cat : Catalog} {r r' : TypeRegistry} {c n a x : String} {t u : TypeEntry} {p : Property}

/-- No class has the source of a base type for its name. -/
def Catalog.Unmasked (cat : Catalog) : Prop :=
  ∀ b ∈ BaseTypes.all cat.config.hydraStart, ∀ c, b.source = some c → cat.class? c = none

/-- For a class and its ancestors: fields of a name say nothing of where they are declared, or name
the class itself, or an ancestor that exposes the name and does not descend from the class. -/
def Catalog.Placed (cat : Catalog) (c x : String) : Prop :=
  ∀ a, Relation.ReflTransGen cat.Inherits c a → ∀ f, cat.HasField a f → f.name = x →
    ∀ b, f.declaredBy = some b → ClassName.relative b = a ∨
      ∃ e, Relation.TransGen cat.Inherits a e ∧ ¬Relation.ReflTransGen cat.Inherits e a ∧
        ClassName.relative b = ClassName.relative e ∧ cat.Exposes e x

theorem Catalog.Placed.of_ancestor (h : cat.Placed c x)
    (ha : Relation.ReflTransGen cat.Inherits c a) : cat.Placed a x :=
  fun e he => h e (ha.trans he)

def Shown (cat : Catalog) (r : TypeRegistry) (c x : String) : Prop :=
  ∃ a, Relation.ReflTransGen cat.Inherits c a ∧ ∃ n t p, r.get? n = some t ∧
    t.hasFactory = true ∧ t.source = some a ∧ t.properties.get? x = some p ∧ p.inherited = false

def Deferred (cat : Catalog) (c x : String) : Prop :=
  ∃ a f b, Relation.ReflTransGen cat.Inherits c a ∧ cat.HasField a f ∧ f.name = x ∧
    f.declaredBy = some b ∧ ClassName.relative b ≠ a

theorem Shown.of_ancestor (ha : Relation.ReflTransGen cat.Inherits c a) (h : Shown cat r a x) :
    Shown cat r c x := by
  obtain ⟨e, he, hown⟩ := h
  exact ⟨e, ha.trans he, hown⟩

theorem Deferred.of_ancestor (ha : Relation.ReflTransGen cat.Inherits c a)
    (h : Deferred cat a x) : Deferred cat c x := by
  obtain ⟨e, f, b, he, hf⟩ := h
  exact ⟨e, f, b, ha.trans he, hf⟩

theorem Growth.keeps_property (h : Growth cat r r') (hr : Sound cat r) (hu : cat.Unshadowed)
    (hdistinct : ∀ {c shape}, cat.class? c = some shape → (shape.fields.map (·.name)).Nodup)
    (ht : r.get? n = some t) (hmade : t.hasFactory = true) (hp : t.properties.get? x = some p) :
    ∃ u, r'.get? n = some u ∧ u.head = t.head ∧ u.properties.get? x = some p := by
  obtain ⟨u, hu', hhead⟩ := (hr.keeps_of_growth hu h).heads ht
  refine ⟨u, hu', hhead, ?_⟩
  have hput : ∀ {v}, (r.put v).get? n = some u → (n = v.name → r.get? v.name = none ∨
      v.hasFactory = false) → u.properties.get? x = some p := by
    intro v hv hnew
    rw [get?_put] at hv
    split at hv
    · rename_i hn
      obtain rfl := Option.some.inj hv
      rcases hnew hn with hnone | hplain
      · rw [← hn, ht] at hnone
        cases hnone
      · rw [TypeEntry.hasFactory_of_head hhead, hmade] at hplain
        cases hplain
    · obtain rfl := Option.some.inj (ht.symm.trans hv)
      exact hp
  have hmodify : ∀ {m : String} {f : TypeEntry → TypeEntry}, (r.modify m f).get? n = some u →
      (n = m → (f t).properties.get? x = some p) → u.properties.get? x = some p := by
    intro m f hv hnew
    rw [get?_modify, ht] at hv
    split at hv
    · rename_i hn
      obtain rfl := Option.some.inj hv
      exact hnew hn
    · obtain rfl := Option.some.inj hv
      exact hp
  cases h with
  | opened _ hl hn => exact hput hu' fun _ => .inl (hr.coherent.resolveName_fresh hl hn)
  | enumerated _ _ hl hn _ => exact hput hu' fun _ => .inl (hr.coherent.resolveName_fresh hl hn)
  | extended => exact hmodify hu' fun _ => by rwa [withParent_properties]
  | addressed => exact hmodify hu' fun _ => hp
  | @filled name c shape f q ho hf _ hbuilt hfresh =>
    refine hmodify hu' fun hn => ?_
    have hnone := hfresh (hdistinct ho.described) t (hn ▸ ht)
    rw [TypeEntry.addProperty, OrderedMap.get?_insert, if_neg, hp]
    rintro rfl
    have hname : q.name = f.name := hbuilt.sameField.name
    rw [← hname, hp] at hnone
    cases hnone
  | @listed entry _ resource e o d =>
    have hlist := Operations.listType_head cat.config entry resource e o d
    exact hput hu' fun _ => .inr (congrArg TypeEntry.hasFactory hlist :)

theorem hasFactory_of_class {shape : ClassDecl} (hr : Sound cat r) (hm : cat.Unmasked)
    (hu : cat.Unshadowed) (hc : cat.class? c = some shape) (ht : r.get? n = some t)
    (hs : t.source = some c) : t.hasFactory = true := by
  obtain ⟨-, hhead⟩ := hr.model_of_source hu hc (fun b hb hsource => by
    rw [hm b hb c hsource] at hc
    cases hc) ht hs
  exact TypeEntry.hasFactory_of_head hhead

theorem Shown.grow (h : Shown cat r c x) (hg : Growth cat r r') (hr : Sound cat r)
    (hu : cat.Unshadowed)
    (hdistinct : ∀ {c shape}, cat.class? c = some shape → (shape.fields.map (·.name)).Nodup) :
    Shown cat r' c x := by
  obtain ⟨a, ha, n, t, p, ht, hmade, hs, hp, hown⟩ := h
  obtain ⟨u, hu', hhead, hp'⟩ := hg.keeps_property hr hu hdistinct ht hmade hp
  exact ⟨a, ha, n, u, p, hu', (TypeEntry.hasFactory_of_head hhead).trans hmade,
    (TypeEntry.source_of_head hhead).trans hs, hp', hown⟩

theorem shown_addProperty {shape : ClassDecl} (ho : Opened cat r n c shape)
    (hown : p.inherited = false) : Shown cat (r.modify n (·.addProperty p)) c p.name := by
  obtain ⟨t, ht, hhead⟩ := ho.registered
  have hmade : t.hasFactory = true := TypeEntry.hasFactory_of_head hhead
  refine ⟨c, .refl, n, t.addProperty p, p, by simp [get?_modify, ht], hmade,
    TypeEntry.source_of_head hhead, ?_, hown⟩
  rw [TypeEntry.addProperty, OrderedMap.get?_insert, if_pos rfl]

/-- A property is shown by its class or above it, or is deferred there. A parent from which a class
takes a property has it already, so that classes which are their own ancestors do no harm. -/
theorem established_shown (hm : cat.Unmasked) (hu : cat.Unshadowed)
    (hdistinct : ∀ {c shape}, cat.class? c = some shape → (shape.fields.map (·.name)).Nodup) :
    Established cat (Sound cat)
      (fun r c p => Shown cat r c p.name ∨ Deferred cat c p.name) where
  invariant hr hg := hr.grow hu hg
  stays hr hg h := h.imp_left (·.grow hg hr hu hdistinct)
  new {r name c shape f p} hr hall hg ho hf hexposed hname hinherited := by
    cases hdeclared : f.declaredBy with
    | some b =>
      rw [isInherited, hdeclared] at hinherited
      by_cases hb : ClassName.relative b = c
      · exact .inl (shown_addProperty ho (by simp [hinherited, hb]))
      · exact .inr ⟨c, f, b, .refl, ⟨shape, ho.described, hf, hexposed⟩, hname.symm, hdeclared, hb⟩
    | none =>
      rw [isInherited, hdeclared] at hinherited
      cases hparent : (parentOf cat r shape).any (·.properties.contains f.name) with
      | false => exact .inl (shown_addProperty ho (by rw [hinherited, hparent]))
      | true =>
        obtain ⟨v, hv, hx⟩ := (Option.any_eq_true _ _).1 hparent
        obtain ⟨n, hn, hl⟩ := exists_inherits_of_parentOf ho.described hv
        obtain ⟨-, hget, hs⟩ := hr.coherent.of_lookupSource hl
        obtain ⟨shape', hshape'⟩ := Catalog.classify_eq_model_iff.1 hn.2.2
        have hmade := hasFactory_of_class hr hm hu hshape' hget hs
        obtain ⟨q, hq⟩ := OrderedMap.contains_iff_get?.1 hx
        obtain ⟨hqname, hparents⟩ := hall.holds hget hmade hs hq
        rw [hqname, ← hname] at hparents
        have hc : Relation.ReflTransGen cat.Inherits c n := .single hn
        exact hparents.imp (fun h => (h.of_ancestor hc).grow hg hr hu hdistinct)
          (·.of_ancestor hc)

theorem exists_parent (hb : Building cat [] r) (hr : Sound cat r) (hm : cat.Unmasked)
    (hu : cat.Unshadowed) (hn : cat.Inherits c n) (ht : r.ClassType c t) :
    ∃ u, r.ClassType n u ∧ u.name ∈ t.supers := by
  obtain ⟨-, hget, hs⟩ := hr.coherent.of_lookupSource ht.1
  obtain ⟨hlinked, -⟩ := hb.whole hget ht.2 hs (by simp)
  obtain ⟨⟨m, hm'⟩, hparent⟩ := hlinked n hn
  obtain ⟨u, hu', hsource⟩ := hr.coherent.sourced hm'
  obtain ⟨shape, hshape⟩ := Catalog.classify_eq_model_iff.1 hn.2.2
  have hmade := hasFactory_of_class hr hm hu hshape hu' hsource
  have hfound : r.ClassType n u := ⟨lookupSource_eq_some.2 ⟨m, hm', hu'⟩, hmade⟩
  exact ⟨u, hfound, hparent u hfound⟩

def Ascends (r : TypeRegistry) (t u : TypeEntry) : Prop :=
  (∃ c, r.ClassType c t) ∧ u.name ∈ t.supers ∧ ∃ a, r.ClassType a u

theorem exists_ancestor (hb : Building cat [] r) (hr : Sound cat r) (hm : cat.Unmasked)
    (hu : cat.Unshadowed) (ha : Relation.ReflTransGen cat.Inherits c a) (ht : r.ClassType c t) :
    ∃ u, r.ClassType a u ∧ Relation.ReflTransGen (Ascends r) t u := by
  induction ha with
  | refl => exact ⟨t, ht, .refl⟩
  | tail _ hn ih =>
    obtain ⟨u, hu', hpath⟩ := ih
    obtain ⟨v, hv, hsuper⟩ := exists_parent hb hr hm hu hn hu'
    exact ⟨v, hv, hpath.tail ⟨⟨_, hu'⟩, hsuper, ⟨_, hv⟩⟩⟩

/-- There are finitely many ancestors, since they are all named in the catalog. -/
theorem finite_ancestors (cat : Catalog) (c : String) :
    {a | Relation.ReflTransGen cat.Inherits c a}.Finite := by
  refine (c :: met cat).finite_toSet.subset fun a ha => ?_
  rcases Relation.ReflTransGen.cases_tail ha with rfl | ⟨e, -, ⟨⟨shape, hc, hp⟩, -⟩⟩
  · exact List.mem_cons_self
  · exact List.mem_cons_of_mem _ (parent_mem_met hc hp)

theorem shown_of_placed (hb : Building cat [] r) (hr : Sound cat r) (hm : cat.Unmasked)
    (hu : cat.Unshadowed)
    (hall : EveryProperty (fun r c p => Shown cat r c p.name ∨ Deferred cat c p.name) r)
    (hplaced : cat.Placed c x) (ht : r.ClassType c t) (hx : cat.Exposes c x) :
    Shown cat r c x := by
  -- Where a field is said to belong to an ancestor, that one has fewer ancestors.
  induction hcard : {a | Relation.ReflTransGen cat.Inherits c a}.ncard using Nat.strong_induction_on
    generalizing c t with
  | _ k ih =>
    subst hcard
    obtain ⟨-, hget, hs⟩ := hr.coherent.of_lookupSource ht.1
    obtain ⟨-, hkeys⟩ := hb.whole hget ht.2 hs (by simp)
    obtain ⟨p, hp⟩ := OrderedMap.mem_keys_iff.1 (hkeys x hx)
    obtain ⟨rfl, hshown | ⟨a, f, b, ha, hf, hname, hdeclared, hother⟩⟩ := hall.holds hget ht.2 hs hp
    · exact hshown
    · obtain ⟨e, he, hback, -, hex⟩ :=
        (hplaced a ha f hf hname b hdeclared).resolve_left hother
      have hce := ha.trans he.to_reflTransGen
      obtain ⟨u, hu', -⟩ := exists_ancestor hb hr hm hu hce ht
      have hfewer : {a | Relation.ReflTransGen cat.Inherits e a} ⊂
          {a | Relation.ReflTransGen cat.Inherits c a} :=
        ⟨fun d hd => hce.trans hd, fun hsub => hback (hsub ha)⟩
      exact (ih _ (Set.ncard_lt_ncard hfewer (finite_ancestors cat c)) (hplaced.of_ancestor hce) hu'
        hex rfl).of_ancestor hce

end Lines

def Draft.ExtendsTo (d : Draft) (t u : TypeEntry) : Prop :=
  d.Writes t ∧ u.name ∈ t.supers ∧ d.types.get? u.name = some u

theorem Rendered.writes_class {cat : Catalog} {disk : Disk}
    {seeded modeled served d₀ d : Draft} {n : String} {t : TypeEntry} (h : Rendered cat disk d₀ d)
    (hp : Phased cat disk seeded modeled served d₀) (ht : d.types.get? n = some t)
    (hmade : t.hasFactory = true) : d.Writes t := by
  have htraced := hp.traced
  rw [← h.types] at htraced
  obtain ⟨_, _, -, hhead, -⟩ := htraced.model_of_hasFactory ht hmade
  obtain ⟨-, hrendered⟩ := htraced.file_of_hasFactory ht hmade
  exact h.writes ht hrendered (TypeEntry.kind_of_head hhead)

/-- Every exposed field has a line in the interface of its class or of one that it extends, at some
distance, if fields of the name that are said to belong elsewhere belong to an ancestor. -/
theorem field_line_rendered {doc : Document} {disk : Disk} {d : Draft} {n c : String}
    {t : TypeEntry} {f : Field} (hdistinct : doc.FieldsDistinct)
    (hm : (Catalog.ofDocument doc).Unmasked) (hu : (Catalog.ofDocument doc).Unshadowed)
    (h : Generates doc disk d) (ht : d.types.get? n = some t) (hmade : t.hasFactory = true)
    (hs : t.source = some c) (hf : (Catalog.ofDocument doc).HasField c f)
    (hplaced : (Catalog.ofDocument doc).Placed c f.name) :
    ∃ u p, Relation.ReflTransGen d.ExtendsTo t u ∧ d.Writes u ∧ p ∈ u.properties.values ∧
      p.name = f.name ∧ Render.propertyLine p ∈ Render.interfaceLines u := by
  obtain ⟨seeded, modeled, served, hp, hr⟩ := h.rendered
  have hb : Building (.ofDocument doc) [] d.types := by
    rw [hr.types]
    exact building_of_phased hp
  have hsound : Sound (.ofDocument doc) d.types := by
    rw [hr.types]
    exact hp.sound hu
  have hall : EveryProperty (fun r c p => Shown (.ofDocument doc) r c p.name ∨
      Deferred (.ofDocument doc) c p.name) d.types := by
    rw [hr.types]
    exact hp.everyProperty (established_shown hm hu fun hc =>
      hdistinct _ (Catalog.mem_classes_of_class? hc).1) (.of_exactly hp.exactly)
  have hwrites : ∀ {m u}, d.types.get? m = some u → u.hasFactory = true → d.Writes u :=
    fun hget hmade => hr.writes_class hp hget hmade
  have hextends : ∀ u v, Ascends d.types u v → d.ExtendsTo u v := by
    rintro u v ⟨⟨_, hu'⟩, hsuper, _, hv⟩
    obtain ⟨-, hgetu, -⟩ := hsound.coherent.of_lookupSource hu'.1
    obtain ⟨-, hgetv, -⟩ := hsound.coherent.of_lookupSource hv.1
    exact ⟨hwrites hgetu hu'.2, hsuper, hgetv⟩
  obtain ⟨shape, hc, -⟩ := id hf
  have hindexed : d.types.sources.get? c = some n :=
    hb.sources.indexed ht (isMade_of_hasFactory hmade) hs fun a ha hlist => by
      rw [hlist, hu a ha] at hc
      cases hc
  have hfound : d.types.ClassType c t := ⟨lookupSource_eq_some.2 ⟨n, hindexed, ht⟩, hmade⟩
  obtain ⟨a, ha, m, v, p, hv, hmade', hs', hp', hown⟩ :=
    shown_of_placed hb hsound hm hu hall hplaced hfound ⟨f, hf, rfl⟩
  obtain ⟨u, hu', hpath⟩ := exists_ancestor hb hsound hm hu ha hfound
  obtain ⟨-, hget, hs''⟩ := hsound.coherent.of_lookupSource hu'.1
  obtain rfl := hb.sources.unique hv hget (isMade_of_hasFactory hmade')
    (isMade_of_hasFactory hu'.2) (hs'.trans hs''.symm)
  obtain rfl := Option.some.inj (hv.symm.trans hget)
  obtain ⟨hname, -⟩ := hall.holds hv hmade' hs' hp'
  have hmem : p ∈ v.properties.values := OrderedMap.mem_values_iff.2 ⟨_, hp'⟩
  exact ⟨v, p, Relation.ReflTransGen.mono hextends _ _ hpath, hwrites hv hmade', hmem, hname,
    Render.propertyLine_mem_interfaceLines hmem hown⟩

def plateOf (owner : String) : Field := { textField "plate" with declaredBy := some owner }

def cabDecl (parent : Option String) (plate : Field) : ClassDecl where
  className := "App\\Entity\\Taxi"
  parent := parent
  fields := [plate]
  exposures := [{ shortName := "Taxi" }]

/-- Taxis are said to get their plates from vehicles, which are not their immediate parents. -/
def cabs : Document where
  classes := [cabDecl (some "App\\Entity\\Car") (plateOf "App\\Entity\\Vehicle"),
    carDecl [textField "plate"], vehicleDecl]

theorem cabs_inherits {c n : String} (h : (Catalog.ofDocument cabs).Inherits c n)
    (hc : c = "App\\Entity\\Taxi" ∨ c = "App\\Entity\\Car" ∨ c = "App\\Entity\\Vehicle") :
    c = "App\\Entity\\Taxi" ∧ n = "App\\Entity\\Car" ∨
      c = "App\\Entity\\Car" ∧ n = "App\\Entity\\Vehicle" := by
  obtain ⟨⟨shape, hshape, hparent⟩, -⟩ := h
  rcases hc with rfl | rfl | rfl
  · obtain rfl := Option.some.inj hshape
    exact .inl ⟨rfl, (Option.some.inj hparent).symm⟩
  · obtain rfl := Option.some.inj hshape
    exact .inr ⟨rfl, (Option.some.inj hparent).symm⟩
  · obtain rfl := Option.some.inj hshape
    cases hparent

theorem cabs_placed : (Catalog.ofDocument cabs).Placed "App\\Entity\\Taxi" "plate" := by
  have hcar : (Catalog.ofDocument cabs).Inherits "App\\Entity\\Taxi" "App\\Entity\\Car" :=
    ⟨⟨_, rfl, rfl⟩, by decide, rfl⟩
  have hvehicle : (Catalog.ofDocument cabs).Inherits "App\\Entity\\Car"
      "App\\Entity\\Vehicle" := ⟨⟨_, rfl, rfl⟩, by decide, rfl⟩
  have hback : ¬Relation.ReflTransGen (Catalog.ofDocument cabs).Inherits "App\\Entity\\Vehicle"
      "App\\Entity\\Taxi" := by
    intro h
    rcases Relation.ReflTransGen.cases_head h with h | ⟨n, hn, -⟩
    · exact absurd h (by decide)
    · rcases cabs_inherits hn (.inr (.inr rfl)) with ⟨h, -⟩ | ⟨h, -⟩ <;> exact absurd h (by decide)
  intro a ha
  have hchain : a = "App\\Entity\\Taxi" ∨ a = "App\\Entity\\Car" ∨
      a = "App\\Entity\\Vehicle" := by
    induction ha with
    | refl => exact .inl rfl
    | tail _ hn ih =>
      rcases cabs_inherits hn ih with ⟨-, rfl⟩ | ⟨-, rfl⟩
      · exact .inr (.inl rfl)
      · exact .inr (.inr rfl)
  rintro f ⟨shape, hshape, hmem, -⟩ - b hb
  rcases hchain with rfl | rfl | rfl
  · obtain rfl := Option.some.inj hshape
    obtain rfl := List.mem_singleton.1 hmem
    obtain rfl := Option.some.inj hb
    exact .inr ⟨_, (Relation.TransGen.single hcar).tail hvehicle, hback, rfl, textField "plate",
      ⟨vehicleDecl, rfl, List.mem_singleton_self _, rfl⟩, rfl⟩
  · obtain rfl := Option.some.inj hshape
    obtain rfl := List.mem_singleton.1 hmem
    cases hb
  · obtain rfl := Option.some.inj hshape
    obtain rfl := List.mem_singleton.1 hmem
    cases hb

def generatesClass (doc : Document) (c : String) : Bool :=
  doc.isGenerated && ((extraction (.ofDocument doc) {}).types.lookupSource c).any (·.hasFactory)

theorem exists_generated_class {doc : Document} {c : String} (h : generatesClass doc c = true) :
    ∃ d t, Generates doc {} d ∧ d.types = (extraction (.ofDocument doc) {}).types ∧
      d.types.ClassType c t := by
  rw [generatesClass, Bool.and_eq_true] at h
  obtain ⟨d, hd, htypes⟩ := exists_generates_of_isGenerated h.1
  obtain ⟨t, ht, hmade⟩ := (Option.any_eq_true _ _).1 h.2
  refine ⟨d, t, hd, htypes, ?_, hmade⟩
  rw [htypes]
  exact ht

/-- The plate of a taxi is written for it or for what it extends. -/
theorem taxi_plate_rendered : cabs.FieldsDistinct ∧ (Catalog.ofDocument cabs).Unmasked ∧
    (Catalog.ofDocument cabs).Unshadowed ∧
    (Catalog.ofDocument cabs).Placed "App\\Entity\\Taxi" "plate" ∧
    ∃ d t, Generates cabs {} d ∧ d.types.ClassType "App\\Entity\\Taxi" t ∧
      ∃ u p, Relation.ReflTransGen d.ExtendsTo t u ∧ d.Writes u ∧ p ∈ u.properties.values ∧
        p.name = "plate" ∧ Render.propertyLine p ∈ Render.interfaceLines u := by
  have hdistinct : cabs.FieldsDistinct := by
    unfold Document.FieldsDistinct
    decide
  have hm : (Catalog.ofDocument cabs).Unmasked := by
    intro b hb c hs
    have hnone : ∀ s ∈ (BaseTypes.all (Catalog.ofDocument cabs).config.hydraStart).map (·.source),
        s.all fun c => ((Catalog.ofDocument cabs).class? c).isNone := by decide +kernel
    have hclass := hnone _ (List.mem_map_of_mem hb)
    rw [hs] at hclass
    exact Option.isNone_iff_eq_none.1 hclass
  have hu : (Catalog.ofDocument cabs).Unshadowed := by
    unfold Catalog.Unshadowed
    decide +kernel
  have hgenerates : generatesClass cabs "App\\Entity\\Taxi" = true := by decide +kernel
  obtain ⟨d, t, hd, -, ht⟩ := exists_generated_class hgenerates
  obtain ⟨seeded, modeled, served, hp, hr⟩ := hd.rendered
  have hcoherent := hp.coherent
  rw [← hr.types] at hcoherent
  obtain ⟨-, hget, hs⟩ := hcoherent.of_lookupSource ht.1
  exact ⟨hdistinct, hm, hu, cabs_placed, d, t, hd, ht,
    field_line_rendered (f := plateOf "App\\Entity\\Vehicle") hdistinct hm hu hd hget ht.2 hs
      ⟨_, rfl, List.mem_singleton_self _, rfl⟩ cabs_placed⟩

/-- Nothing that a taxi extends has a line for its plate. -/
def PlateLost (doc : Document) (plate : Field) : Prop :=
  ∃ d t, Generates doc {} d ∧ d.types.ClassType "App\\Entity\\Taxi" t ∧
    (Catalog.ofDocument doc).HasField "App\\Entity\\Taxi" plate ∧
    ¬∃ u p, Relation.ReflTransGen d.ExtendsTo t u ∧ p ∈ u.properties.values ∧
      p.name = plate.name ∧ Render.propertyLine p ∈ Render.interfaceLines u

def writesPlate (doc : Document) : Bool :=
  (extraction (.ofDocument doc) {}).types.toList.any fun u => u.properties.values.any fun p =>
    p.name == "plate" && (Render.interfaceLines u).contains (Render.propertyLine p)

theorem plateLost_of_writesPlate {doc : Document} {plate : Field}
    (h : generatesClass doc "App\\Entity\\Taxi" = true) (hnone : writesPlate doc = false)
    (hf : (Catalog.ofDocument doc).HasField "App\\Entity\\Taxi" plate)
    (hname : plate.name = "plate") : PlateLost doc plate := by
  obtain ⟨d, t, hd, htypes, ht⟩ := exists_generated_class h
  refine ⟨d, t, hd, ht, hf, ?_⟩
  rintro ⟨u, p, hpath, hp, hpname, hline⟩
  have hregistered : ∃ n, d.types.get? n = some u := by
    rcases Relation.ReflTransGen.cases_tail hpath with rfl | ⟨v, -, -, -, hu⟩
    · obtain ⟨n, -, hn⟩ := lookupSource_eq_some.1 ht.1
      exact ⟨n, hn⟩
    · exact ⟨_, hu⟩
  rw [htypes] at hregistered
  have hsome : writesPlate doc = true := by
    refine List.any_eq_true.2 ⟨u, mem_toList.2 hregistered, List.any_eq_true.2 ⟨p, hp, ?_⟩⟩
    simp [hpname, hname, hline]
  rw [hnone] at hsome
  cases hsome

/-- Taxis are said to get their plates from a class that they do not extend. -/
def strangers : Document where
  classes := [cabDecl none (plateOf "App\\Entity\\Registry")]

def plateless : Document where
  classes := [cabDecl (some "App\\Entity\\Car") (plateOf "App\\Entity\\Car"), carDecl []]

/-- Cars are said to get the plates that taxis get from them from somewhere else. -/
def handedDown : Document where
  classes := [cabDecl (some "App\\Entity\\Car") (textField "plate"),
    carDecl [plateOf "App\\Entity\\Registry"]]

def reciprocal : Document where
  classes := [cabDecl (some "App\\Entity\\Car") (plateOf "App\\Entity\\Car"), {
    className := "App\\Entity\\Car"
    parent := some "App\\Entity\\Taxi"
    fields := [plateOf "App\\Entity\\Taxi"] }]

/-- Taxis are said to get their plates from a class that an envelope hides. -/
def hidden : Document where
  classes := [
    { className := "@base/HydraItem", fields := [textField "plate"] },
    cabDecl (some "@base/HydraItem") (plateOf "@base/HydraItem")]

/-- Taxis get their plates from a class that query parameters replace. -/
def replaced : Document where
  classes := [
    { className := "App\\Entity\\Car"
      exposures := [{ shortName := "Car", operations := [{ type := some "GetCollection" }] }] },
    { className := "App\\Entity\\Car#list-params"
      fields := [textField "plate"]
      exposures := [{ shortName := "CarListParams" }] },
    cabDecl (some "App\\Entity\\Car#list-params") (textField "plate")]

/-- A plate is lost if a taxi, or a car, is told that it belongs to a class from which it does not
come. It is lost as well if a base type hides the class that it comes from, or query parameters
replace that class. -/
theorem taxi_plate_lost : PlateLost strangers (plateOf "App\\Entity\\Registry") ∧
    PlateLost plateless (plateOf "App\\Entity\\Car") ∧
    PlateLost handedDown (textField "plate") ∧ PlateLost reciprocal (plateOf "App\\Entity\\Car") ∧
    PlateLost hidden (plateOf "@base/HydraItem") ∧ PlateLost replaced (textField "plate") := by
  refine ⟨?_, ?_, ?_, ?_, ?_, ?_⟩
  all_goals
    exact plateLost_of_writesPlate (by decide +kernel) (by decide +kernel)
      ⟨_, rfl, List.mem_singleton_self _, rfl⟩ rfl

end HydraClient
