import HydraClient.Proofs.Ancestry

/-! # Inherited fields

A field that says nothing of where it is declared belongs to an ancestor if the parent has a
property of the name. The parent is extracted before the fields of the class are looked at, so it
has all of its properties then, unless the class is itself reached from there.
-/
namespace HydraClient

open Metadata TypeRegistry Model

namespace Inheritance

variable {cat : Catalog} {pending : List String} {c n name x : String} {r r' : TypeRegistry}
  {shape : ClassDecl} {t : TypeEntry} {p : Property} {f : TypeEntry → TypeEntry}

/-- A class leads to another one and was taken up before it, or the two are the same. -/
def Within (cat : Catalog) (r : TypeRegistry) (n c : String) : Prop :=
  Relation.TransGen (Leads cat) n c ∧ (n = c ∨ [n, c].Sublist r.sources.keys)

/-- A field that says nothing of where it is declared is inherited if the parent exposes the name,
unless the class was looked at within its parent. -/
def Caught (cat : Catalog) (r : TypeRegistry) (c : String) (p : Property) : Prop :=
  ∃ f, cat.HasField c f ∧ f.name = p.name ∧ (f.declaredBy = none → ∀ n, cat.Inherits c n →
    r.Knows n ∧ ∀ u, r.ClassType n u → cat.Exposes n p.name → p.inherited = true ∨ Within cat r n c)

theorem Within.later (h : Within cat r n c) (hl : Later r r') : Within cat r' n c :=
  ⟨h.1, h.2.imp_right fun hsub => hsub.trans hl.order.sublist⟩

theorem Caught.later (h : Caught cat r c p) (hl : Later r r') : Caught cat r' c p := by
  obtain ⟨f, hf, hname, hcaught⟩ := h
  refine ⟨f, hf, hname, fun hnone n hn => ?_⟩
  obtain ⟨hknown, hparent⟩ := hcaught hnone n hn
  refine ⟨hl.knows hknown, fun u hu hx => ?_⟩
  obtain ⟨v, hv, -⟩ := hl.types hknown hu
  exact (hparent v hv hx).imp_right (·.later hl)

def Linked (cat : Catalog) (r : TypeRegistry) (c : String) (t : TypeEntry) : Prop :=
  ∀ n, cat.Inherits c n → r.Knows n ∧ ∀ u, r.ClassType n u → u.name ∈ t.supers

theorem Linked.later (h : Linked cat r c t) (hl : Later r r') : Linked cat r' c t := by
  intro n hn
  obtain ⟨hknown, hparent⟩ := h n hn
  refine ⟨hl.knows hknown, fun u hu => ?_⟩
  obtain ⟨v, hv, hname, -⟩ := hl.types hknown hu
  exact hname ▸ hparent v hv

/-- While some classes are pending, all other interfaces have their parents and all of their
fields, and every property that is there is marked for what its parent exposes. -/
structure Building (cat : Catalog) (pending : List String) (r : TypeRegistry) : Prop where
  sources : OwnSources cat r
  known : ∀ a ∈ pending, r.Knows a
  whole : ∀ {m t c}, r.get? m = some t → t.hasFactory = true → t.source = some c → c ∉ pending →
    Linked cat r c t ∧ ∀ x, cat.Exposes c x → x ∈ t.properties.keys
  caught : EveryProperty (Caught cat) r

theorem isMade_of_hasFactory (h : t.hasFactory = true) : t.isMade = true := by
  simp [TypeEntry.isMade, h]

namespace Building

theorem put_plain (h : Building cat pending r) (hown : OwnSources cat (r.put t))
    (hl : Later r (r.put t)) (ht : t.hasFactory = false) : Building cat pending (r.put t) where
  sources := hown
  known a ha := hl.knows (h.known a ha)
  whole {m u c} hu hmade hs hc := by
    rw [get?_put] at hu
    split at hu
    · obtain rfl := Option.some.inj hu
      rw [ht] at hmade
      cases hmade
    · exact (h.whole hu hmade hs hc).imp_left (·.later hl)
  caught := h.caught.put (·.later hl) fun hmade => by simp [ht] at hmade

theorem put_class (h : Building cat pending r) (hl : r.lookupSource c = none)
    (hfree : r.get? name = none) : Building cat (c :: pending) (r.put (bare name c shape)) := by
  have hlater : Later r (r.put (bare name c shape)) := .put h.sources.coherent hl hfree rfl
  refine ⟨h.sources.put hl hfree rfl, fun a ha => ?_, fun {m u c'} hu hmade hs hc' => ?_,
    h.caught.put (·.later hlater) fun _ => rfl⟩
  · rw [PlainlyKnown.knows_put (t := bare name c shape) (c := c) rfl]
    exact (List.mem_cons.1 ha).imp_right (h.known a)
  · rw [get?_put] at hu
    split at hu
    · obtain rfl := Option.some.inj hu
      exact absurd (Option.some.inj hs) fun e => hc' (e ▸ List.mem_cons_self)
    · have hrest := h.whole hu hmade hs fun hmem => hc' (List.mem_cons_of_mem _ hmem)
      exact hrest.imp_left (·.later hlater)

theorem modify (h : Building cat pending r) (ho : Opened cat r name c shape) (hc : c ∈ pending)
    (hf : ∀ t, (f t).head = t.head) (hl : Later r (r.modify name f))
    (hnew : ∀ {t x p}, r.get? name = some t → (f t).properties.get? x = some p →
      t.properties.get? x = some p ∨ p.name = x ∧ Caught cat r c p) :
    Building cat pending (r.modify name f) := by
  have hsource : ∀ {t}, r.get? name = some t → t.source = some c := fun {t} ht => by
    obtain ⟨u, hu, hhead⟩ := ho.registered
    obtain rfl := Option.some.inj (ht.symm.trans hu)
    exact TypeEntry.source_of_head hhead
  refine ⟨h.sources.modify hf, fun a ha => hl.knows (h.known a ha),
    fun {m u c'} hu hmade hs hc' => ?_, h.caught.modify (·.later hl) hf fun ht _ hs hp => ?_⟩
  · rw [get?_modify] at hu
    split at hu
    · rename_i hm
      subst hm
      obtain ⟨v, hv, rfl⟩ := Option.map_eq_some_iff.1 hu
      have hs' := (TypeEntry.source_of_head (hf v)).symm.trans hs
      obtain rfl := Option.some.inj (hs'.symm.trans (hsource hv))
      exact absurd hc hc'
    · exact (h.whole hu hmade hs hc').imp_left (·.later hl)
  · obtain rfl := Option.some.inj (hs.symm.trans (hsource ht))
    exact (hnew ht hp).imp_right fun hp => ⟨hp.1, hp.2.later hl⟩

theorem list (h : Building cat pending r) {a : String} (ha : a ∈ cat.resources)
    (ht : t.source = some (Operations.listSource a)) (hplain : t.isMade = false)
    (hheld : ∀ held, r.get? t.name = some held → held.source = t.source) :
    Building cat pending (r.put t) := by
  have hfactory : t.hasFactory = false := by
    simp only [TypeEntry.isMade, Bool.or_eq_false_iff] at hplain
    exact hplain.1
  exact h.put_plain (h.sources.put_list ha ht hplain hheld) (.put_plain ht hfactory) hfactory

theorem preserves_resolveEnum (c : String) (file : Option String) :
    Preserves (Building cat pending) (resolveEnum cat c file) := by
  refine alike_resolveEnum_of_put file fun {s n file shape} hs hl hn _ _ => ?_
  have hfree := hs.sources.coherent.resolveName_fresh hl hn
  exact hs.put_plain (hs.sources.put hl hfree rfl) (.put hs.sources.coherent hl hfree rfl) rfl

end Building

structure Opening (cat : Catalog) (pending : List String) (name c : String) (done : List Field)
    (r : TypeRegistry) : Prop where
  building : Building cat (c :: pending) r
  before : ∀ a ∈ pending, [a, c].Sublist r.sources.keys
  linked : ∀ t, r.get? name = some t → Linked cat r c t
  fields : ∀ t, r.get? name = some t → ∀ f ∈ done, f.isExposed = true →
    f.name ∈ t.properties.keys

theorem sublist_put_class (h : Building cat pending r) (hl : r.lookupSource c = none) :
    ∀ a ∈ pending, [a, c].Sublist (r.put (bare name c shape)).sources.keys := by
  intro a ha
  have hknown := knows_iff.1 (h.known a ha)
  have hnew : c ∉ r.sources.keys := fun hmem => by
    obtain ⟨n, hn⟩ := knows_iff.2 hmem
    obtain ⟨t, ht, -⟩ := h.sources.coherent.sourced hn
    rw [lookupSource_eq_some.2 ⟨n, hn, ht⟩] at hl
    cases hl
  rw [sources_put (t := bare name c shape) (s := c) rfl, OrderedMap.keys_insert, if_neg hnew]
  exact (List.singleton_sublist.2 hknown).append (List.Sublist.refl [c])

namespace Opening

variable {done done' : List Field}

theorem extend (h : Opening cat pending name c done r) (ho : Opened cat r name c shape)
    (hx : Extends r r') (hl : Later r r') (hb : Building cat (c :: pending) r') :
    Opening cat pending name c done r' := by
  have hold : ∀ {t}, r'.get? name = some t → r.get? name = some t := fun {t} ht => by
    obtain ⟨u, hu, -⟩ := ho.registered
    obtain rfl := Option.some.inj ((hx.entries hu).symm.trans ht)
    exact hu
  exact ⟨hb, fun a ha => (h.before a ha).trans hl.order.sublist,
    fun t ht => (h.linked t (hold ht)).later hl, fun t ht => h.fields t (hold ht)⟩

theorem modify (h : Opening cat pending name c done r) (hl : Later r (r.modify name f))
    (hb : Building cat (c :: pending) (r.modify name f)) (hsupers : ∀ t, t.supers ⊆ (f t).supers)
    (hfields : ∀ t, (∀ g ∈ done, g.isExposed = true → g.name ∈ t.properties.keys) →
      ∀ g ∈ done', g.isExposed = true → g.name ∈ (f t).properties.keys) :
    Opening cat pending name c done' (r.modify name f) := by
  have hold : ∀ {t}, (r.modify name f).get? name = some t →
      ∃ u, r.get? name = some u ∧ t = f u := fun {t} ht => by
    rw [get?_modify, if_pos rfl] at ht
    obtain ⟨u, hu, rfl⟩ := Option.map_eq_some_iff.1 ht
    exact ⟨u, hu, rfl⟩
  refine ⟨hb, h.before, fun t ht n hn => ?_, fun t ht => ?_⟩
  · obtain ⟨u, hu, rfl⟩ := hold ht
    obtain ⟨hknown, hparent⟩ := (h.linked u hu).later hl n hn
    exact ⟨hknown, fun v hv => hsupers u (hparent v hv)⟩
  · obtain ⟨u, hu, rfl⟩ := hold ht
    exact hfields u (h.fields u hu)

theorem caught {field : Field} (h : Opening cat pending name c done r)
    (ho : Opened cat r name c shape)
    (hleads : ∀ a ∈ pending, Relation.TransGen (Leads cat) a c)
    (hf : field ∈ shape.fields) (hexposed : field.isExposed = true) (hname : p.name = field.name)
    (hinherited : p.inherited = isInherited c field (parentOf cat r shape)) :
    Caught cat r c p := by
  refine ⟨field, ⟨shape, ho.described, hf, hexposed⟩, hname.symm, fun hnone n hn => ?_⟩
  obtain ⟨t, ht, -⟩ := ho.registered
  refine ⟨(h.linked t ht n hn).1, fun u hu hx => ?_⟩
  by_cases hpending : n ∈ c :: pending
  · refine .inr ?_
    rcases List.mem_cons.1 hpending with rfl | hmem
    · exact ⟨.single hn.leads, .inl rfl⟩
    · exact ⟨hleads n hmem, .inr (h.before n hmem)⟩
  · refine .inl ?_
    obtain ⟨-, hget, hs⟩ := h.building.sources.coherent.of_lookupSource hu.1
    obtain ⟨-, hkeys⟩ := h.building.whole hget hu.2 hs hpending
    rw [hinherited, isInherited, hnone, hn.parentOf_eq ho.described, hu.1]
    exact OrderedMap.contains_iff.2 (hname ▸ hkeys _ hx)

theorem address (h : Opening cat pending name c done r) (ho : Opened cat r name c shape) :
    Opening cat pending name c done (r.modify name withAddress) := by
  have hl : Later r (r.modify name withAddress) :=
    .modify head_withAddress fun _ => List.Subset.refl _
  refine h.modify hl ?_ (fun t => List.subset_append_left _ _) fun t ht => ht
  exact h.building.modify ho List.mem_cons_self head_withAddress hl fun _ hp => .inl hp

/-- A class with all of its fields is not pending any more. -/
theorem close (h : Opening cat pending name c shape.fields r) (ho : Opened cat r name c shape) :
    Building cat pending r where
  sources := h.building.sources
  known a ha := h.building.known a (List.mem_cons_of_mem _ ha)
  whole {m t c'} ht hmade hs hpending := by
    by_cases hc : c' = c
    · subst hc
      obtain ⟨u, hu, hhead⟩ := ho.registered
      have hmade' : u.hasFactory = true := TypeEntry.hasFactory_of_head hhead
      have hs' : u.source = some c' := TypeEntry.source_of_head hhead
      obtain rfl := h.building.sources.unique ht hu (isMade_of_hasFactory hmade)
        (isMade_of_hasFactory hmade') (hs.trans hs'.symm)
      refine ⟨h.linked t ht, ?_⟩
      rintro x ⟨f, ⟨shape', hc, hf, hexposed⟩, rfl⟩
      obtain rfl := Option.some.inj (ho.described.symm.trans hc)
      exact h.fields t ht f hf hexposed
    · exact h.building.whole ht hmade hs (by simp [hc, hpending])
  caught := h.building.caught

section Steps

variable {visit : String → Drafting TypeEntry} {s₀ s s' : Draft} {parent : Option String}
  (hv : ∀ a, Finds cat (visit a) a)
  (hk : ∀ a, Leads cat c a → Preserves (Building cat (c :: pending)) (visit a))

include hv hk

theorem of_parentStep (hb : Building cat (c :: pending) s.types)
    (hbefore : ∀ a ∈ pending, [a, c].Sublist s.types.sources.keys)
    (ho : Opened cat s.types name c shape) (h : ParentStep cat visit name shape s parent s') :
    Opening cat pending name c [] s'.types := by
  cases h with
  | skip habsent =>
    refine ⟨hb, hbefore, ?_, fun _ _ _ hf => nomatch hf⟩
    rintro t - n ⟨⟨shape', hc, hp⟩, hne, hmodel⟩
    obtain rfl := Option.some.inj (ho.described.symm.trans hc)
    exact absurd hmodel (habsent n hp hne)
  | @add n p m hp hne hmodel hvisit =>
    have hn : cat.Inherits c n := ⟨⟨shape, ho.described, hp⟩, hne, hmodel⟩
    obtain ⟨hextracted, hlookup⟩ := hv n hb.sources.coherent hvisit
    have hm : Building cat (c :: pending) m.types := (hk n hn.leads s hb).2 p m hvisit
    have hl : Later m.types (m.types.modify name (withParent p)) :=
      .modify (head_withParent p) (keys_subset_withParent p)
    have hbefore' := (hextracted.growth.later hb.sources.coherent).order
    have hbuilding : Building cat (c :: pending) (m.types.modify name (withParent p)) :=
      hm.modify (ho.of_extends hextracted.kept) List.mem_cons_self (head_withParent p) hl
        fun _ hp => .inl (by rwa [withParent_properties] at hp)
    have hknown : m.types.Knows n := ⟨_, (hm.sources.coherent.of_lookupSource hlookup).1⟩
    refine ⟨hbuilding, fun a ha => (hbefore a ha).trans hbefore'.sublist, fun t ht n' hn' => ?_,
      fun _ _ _ hf => nomatch hf⟩
    obtain rfl := hn.unique hn'
    refine ⟨hl.knows hknown, fun u hu => ?_⟩
    obtain ⟨v, hv, hname, -⟩ := hl.types hknown hu
    obtain rfl := Option.some.inj (hlookup.symm.trans hv.1)
    rw [get?_modify, if_pos rfl] at ht
    obtain ⟨w, -, rfl⟩ := Option.map_eq_some_iff.1 ht
    simp [withParent_supers, hname]

theorem of_fieldStep {field : Field} {before after : List Field} (hs₀ : Coherent s₀.types)
    (hleads : ∀ a ∈ pending, Relation.TransGen (Leads cat) a c)
    (hF : Filling cat s₀ name c shape before s) (hp : ParentKnown cat shape s.types parent)
    (hsplit : shape.fields = before ++ field :: after)
    (hO : Opening cat pending name c before s.types)
    (h : FieldStep cat visit (bare name c shape) c parent field s s') :
    Opening cat pending name c (before ++ [field]) s'.types := by
  cases h with
  | skip hhidden =>
    refine ⟨hO.building, hO.before, hO.linked, fun t ht f hf hexposed => ?_⟩
    rcases List.mem_append.1 hf with hf | hf
    · exact hO.fields t ht f hf hexposed
    · obtain rfl := List.mem_singleton.1 hf
      rw [hhidden] at hexposed
      cases hexposed
  | @add p m hexposed hbuild =>
    have hmem : field ∈ shape.fields := by simp [hsplit]
    have hs := hF.extracted.coherent hs₀
    obtain ⟨hextracted, hbuilt⟩ := built_of_buildProperty hv rfl hF.opened.houses hs hbuild
    have hpreserves : Preserves (Building cat (c :: pending)) (buildProperty cat visit
        (bare name c shape) field (isInherited c field (parent.bind s.types.get?))) := by
      refine alike_buildProperty _ fun form hform a ha => ?_
      exact ⟨fun hmodel => hk a (.field hF.opened.described hmem hexposed hform ha hmodel),
        fun _ file => Building.preserves_resolveEnum a file⟩
    have hm : Building cat (c :: pending) m.types := (hpreserves s hO.building).2 p m hbuild
    have hOm := hO.extend hF.opened hextracted.kept (hextracted.growth.later hs) hm
    have ho := hF.opened.of_extends hextracted.kept
    rw [hp.bind_get? hs hextracted.kept] at hbuilt
    have hname : p.name = field.name := hbuilt.sameField.name
    have hcaught := hOm.caught ho hleads hmem hexposed hname hbuilt.sameField.inherited
    have hl : Later m.types (m.types.modify name (·.addProperty p)) :=
      .modify (fun t => t.head_addProperty p) (keys_subset_addProperty · p)
    refine hOm.modify hl ?_ (fun t => List.Subset.refl _) fun t ht f hf hexposed => ?_
    · refine hm.modify ho List.mem_cons_self (fun t => t.head_addProperty p) hl fun _ hx => ?_
      rw [TypeEntry.addProperty, OrderedMap.get?_insert] at hx
      split at hx
      · rename_i hx'
        obtain rfl := Option.some.inj hx
        exact .inr ⟨hx'.symm, hcaught⟩
      · exact .inl hx
    · rcases List.mem_append.1 hf with hf | hf
      · exact keys_subset_addProperty t p (ht f hf hexposed)
      · obtain rfl := List.mem_singleton.1 hf
        rw [TypeEntry.addProperty, OrderedMap.mem_keys_iff]
        exact ⟨p, by simp [OrderedMap.get?_insert, hname]⟩

end Steps

end Opening

theorem preserves_extractWithin (depth : Nat) (pending : List String) (c : String)
    (hleads : ∀ a ∈ pending, Relation.TransGen (Leads cat) a c) :
    Preserves (Building cat pending) (extractWithin cat depth c) := by
  -- What is pending leads to every class that is visited on the way.
  induction depth generalizing pending c with
  | zero => exact .throw _
  | succ depth ih =>
    refine .same fun s t s' hs h => ?_
    rcases yields_extractWithin_succ h with ⟨-, rfl⟩ | ⟨hl, hnew⟩
    · exact hs
    obtain ⟨shape, name, parent, m, m', hsteps⟩ := exists_newSteps hnew
    have hv : ∀ a, Finds cat (extractWithin cat depth a) a := extractWithin_finds depth
    have hk : ∀ a, Leads cat c a → Preserves (Building cat (c :: pending))
        (extractWithin cat depth a) := fun a ha => ih _ _ fun b hb => by
      rcases List.mem_cons.1 hb with rfl | hb
      · exact .single ha
      · exact (hleads b hb).tail ha
    have hs₀ := hs.sources.coherent
    have hfree := hs₀.resolveName_fresh hl hsteps.resolved
    have hopen := Filling.of_open hsteps.described hs₀ hl hsteps.resolved
    have hparented : Opening cat pending name c [] m.types :=
      .of_parentStep hv hk (hs.put_class hl hfree) (sublist_put_class hs hl) hopen.opened
        hsteps.parented
    obtain ⟨hfilling, hp⟩ := filling_of_parentStep hv hs₀ hfree hopen hsteps.parented
    have haddressed : Filling cat s name c shape [] m' ∧ ParentKnown cat shape m'.types parent ∧
        Opening cat pending name c [] m'.types := by
      rcases hsteps.addressed with rfl | ⟨ha, rfl⟩
      · exact ⟨hfilling, hp, hparented⟩
      · exact ⟨hfilling.modify hfree (.addressed hfilling.opened ha) head_withAddress
          fun _ ht => ht, hp.of_sources id, hparented.address hfilling.opened⟩
    obtain ⟨hfilled, -, hopened⟩ := hsteps.filled.prefix_invariant
      (I := fun done m => Filling cat s name c shape done m ∧
        ParentKnown cat shape m.types parent ∧ Opening cat pending name c done m.types) haddressed
      fun before field after m m' hsplit hI hR => by
        obtain ⟨hF, hp, hO⟩ := hI
        obtain ⟨hF', hp'⟩ := filling_of_fieldStep hv hs₀ hfree hF hsplit hp hR
        exact ⟨hF', hp', .of_fieldStep hv hk hs₀ hleads hF hp hsplit hO hR⟩
    exact hopened.close hfilled.opened

theorem lasting (cat : Catalog) : Lasting cat (fun _ => True) (Building cat []) where
  plain _ := trivial
  visit c _ := preserves_extractWithin _ [] c nofun
  list h ha _ _ ht hplain hheld := h.list ha ht hplain hheld

theorem building_of_phased {disk : Disk} {seeded modeled served d : Draft}
    (hp : Phased cat disk seeded modeled served d) : Building cat [] d.types := by
  refine (lasting cat).of_phased (fun _ _ => trivial) hp ⟨.of_exactly hp.exactly, nofun,
    fun ht hmade => ?_, ⟨fun ht hmade => ?_⟩⟩
  all_goals
    rw [hasFactory_of_exactly hp.exactly ht] at hmade
    cases hmade

end Inheritance

def Catalog.Ancestor (cat : Catalog) (c a : String) : Prop :=
  Relation.TransGen cat.Inherits c a ∧ ClassName.relative a ≠ ClassName.relative c

open Inheritance in
/-- A field that says nothing of where it is declared is inherited only if the parent exposes the
name, and it is then inherited unless the class was taken up within its parent. So it is inherited
just if an ancestor exposes the name, if the parent does as soon as one does. -/
theorem inherited_iff {doc : Document} {disk : Disk} {d : Draft} {n c : String} {t : TypeEntry}
    {f : Field} (hdistinct : doc.FieldsDistinct) (h : Extracts (.ofDocument doc) disk d)
    (ht : d.types.get? n = some t) (hmade : t.hasFactory = true) (hs : t.source = some c)
    (hf : (Catalog.ofDocument doc).HasField c f) (hnone : f.declaredBy = none) :
    ∃ p, t.properties.get? f.name = some p ∧
      ((∀ n, ¬(Catalog.ofDocument doc).Inherits c n) → p.inherited = false) ∧
      ∀ n u, (Catalog.ofDocument doc).Inherits c n → d.types.ClassType n u →
        (p.inherited = true → (Catalog.ofDocument doc).Exposes n f.name) ∧
        ((Catalog.ofDocument doc).Exposes n f.name → p.inherited = true ∨
          Within (.ofDocument doc) d.types n c) ∧
        (¬Within (.ofDocument doc) d.types n c → ClassName.relative n ≠ ClassName.relative c →
          (∀ a, (Catalog.ofDocument doc).Ancestor c a → (Catalog.ofDocument doc).Exposes a f.name →
            (Catalog.ofDocument doc).Exposes n f.name) →
          (p.inherited = true ↔ ∃ a, (Catalog.ofDocument doc).Ancestor c a ∧
            (Catalog.ofDocument doc).Exposes a f.name)) := by
  obtain ⟨seeded, modeled, served, hp⟩ := h.phased
  have hb := building_of_phased hp
  obtain ⟨-, hkeys⟩ := hb.whole ht hmade hs (by simp)
  obtain ⟨p, hp'⟩ := OrderedMap.mem_keys_iff.1 (hkeys f.name ⟨f, hf, rfl⟩)
  obtain ⟨hname, g, hg, hgname, -, hjustified⟩ := hp.justified.holds ht hmade hs hp'
  obtain ⟨-, g', hg', hgname', hcaught⟩ := hb.caught.holds ht hmade hs hp'
  obtain rfl := hf.unique hdistinct hg (hname.symm.trans hgname.symm)
  obtain rfl := hf.unique hdistinct hg' (hname.symm.trans hgname'.symm)
  rw [hname] at hjustified hcaught
  refine ⟨p, hp', fun halone => ?_, fun n u hn hu => ?_⟩
  · rw [← Bool.not_eq_true]
    intro hinherited
    obtain ⟨n, hn, -⟩ := hjustified hnone hinherited
    exact halone n hn
  · have hexposes : p.inherited = true → (Catalog.ofDocument doc).Exposes n f.name := by
      intro hinherited
      obtain ⟨n', hn', -, hkeys'⟩ := hjustified hnone hinherited
      obtain rfl := hn.unique hn'
      exact hp.exposes_of_mem_keys hu (hkeys' u hu)
    have hmarked := (hcaught hnone n hn).2 u hu
    refine ⟨hexposes, hmarked, fun hwithin hne hnearest => ⟨fun hinherited => ?_, ?_⟩⟩
    · exact ⟨n, ⟨.single hn, hne⟩, hexposes hinherited⟩
    · rintro ⟨a, ha, hx⟩
      exact (hmarked (hnearest a ha hx)).resolve_right hwithin

def textField (name : String) : Field where
  name := name
  types := [{ builtin := "string" }]

def vehicleDecl : ClassDecl where
  className := "App\\Entity\\Vehicle"
  fields := [textField "plate"]

def carDecl (fields : List Field) : ClassDecl where
  className := "App\\Entity\\Car"
  parent := some "App\\Entity\\Vehicle"
  fields := fields
  exposures := [{ shortName := "Car" }]

def taxiDecl : ClassDecl where
  className := "App\\Entity\\Taxi"
  parent := some "App\\Entity\\Car"
  fields := [textField "plate", textField "permit"]
  exposures := [{ shortName := "Taxi" }]

def fleet (carFields : List Field) : Document where
  classes := [taxiDecl, carDecl carFields, vehicleDecl]

/-- A car refers to its taxis before it comes to its plate. -/
def hiredCarDecl : ClassDecl :=
  carDecl [
    { name := "taxi"
      types := [{ builtin := "object", className := some "App\\Entity\\Taxi" }] },
    textField "plate"]

def plateOfTaxi (doc : Document) : Option Bool :=
  match (extraction (.ofDocument doc) {}).types.lookupSource "App\\Entity\\Taxi" with
  | some t => if t.hasFactory then (t.properties.get? "plate").map (·.inherited) else none
  | none => none

theorem exists_taxi (doc : Document) (marked : Bool)
    (h : (({} : Run).takeSteps (Pipeline.extraction (.ofDocument doc) {})).1.isOk = true)
    (ht : plateOfTaxi doc = some marked) :
    ∃ d t p, Extracts (.ofDocument doc) {} d ∧ d.types.ClassType "App\\Entity\\Taxi" t ∧
      t.properties.get? "plate" = some p ∧ p.inherited = marked := by
  unfold plateOfTaxi at ht
  split at ht
  · rename_i t hl
    split at ht
    · rename_i hmade
      obtain ⟨p, hp, rfl⟩ := Option.map_eq_some_iff.1 ht
      exact ⟨_, t, p, extracts_extraction h, ⟨hl, hmade⟩, hp, rfl⟩
    · cases ht
  · cases ht

theorem taxi_ancestors (carFields : List Field) :
    (Catalog.ofDocument (fleet carFields)).Inherits "App\\Entity\\Taxi" "App\\Entity\\Car" ∧
      (Catalog.ofDocument (fleet carFields)).Inherits "App\\Entity\\Car"
        "App\\Entity\\Vehicle" :=
  ⟨⟨⟨taxiDecl, rfl, rfl⟩, by decide, rfl⟩, ⟨⟨carDecl carFields, rfl, rfl⟩, by decide, rfl⟩⟩

theorem vehicle_exposes_plate {carFields : List Field} :
    (Catalog.ofDocument (fleet carFields)).Exposes "App\\Entity\\Vehicle" "plate" :=
  ⟨textField "plate", ⟨vehicleDecl, rfl, List.mem_singleton_self _, rfl⟩, rfl⟩

/-- A taxi inherits its plate if cars have plates themselves. -/
theorem taxi_inherits_plate : (fleet [textField "plate"]).FieldsDistinct ∧
    ∃ d t p, Extracts (.ofDocument (fleet [textField "plate"])) {} d ∧
      d.types.ClassType "App\\Entity\\Taxi" t ∧ t.properties.get? "plate" = some p ∧
      p.inherited = true := by
  have hdistinct : (fleet [textField "plate"]).FieldsDistinct := by
    unfold Document.FieldsDistinct
    decide
  obtain ⟨d, t, p, hd, ht, hp, -⟩ := exists_taxi (fleet [textField "plate"]) true
    (by decide +kernel) (by decide +kernel)
  obtain ⟨hcar, hvehicle⟩ := taxi_ancestors [textField "plate"]
  obtain ⟨seeded, modeled, served, hphased⟩ := hd.phased
  obtain ⟨-, hget, hs⟩ := hphased.coherent.of_lookupSource ht.1
  obtain ⟨q, hq, -, hparent⟩ := inherited_iff (f := textField "plate") hdistinct hd hget ht.2 hs
    ⟨taxiDecl, rfl, List.mem_cons_self, rfl⟩ rfl
  obtain rfl := Option.some.inj (hp.symm.trans hq)
  have hfound : ((extraction (.ofDocument (fleet [textField "plate"])) {}).types.lookupSource
      "App\\Entity\\Car").any (·.hasFactory) = true := by decide +kernel
  rw [← hd.eq_extraction, Option.any_eq_true] at hfound
  obtain ⟨u, hu, hmade⟩ := hfound
  obtain ⟨-, -, hiff⟩ := hparent _ u hcar ⟨hu, hmade⟩
  have hafter : ¬["App\\Entity\\Car", "App\\Entity\\Taxi"].Sublist
      (extraction (.ofDocument (fleet [textField "plate"])) {}).types.sources.keys := by
    decide +kernel
  refine ⟨hdistinct, d, t, p, hd, ht, hp, (hiff ?_ (by decide) fun a _ _ => ?_).2 ?_⟩
  · rintro ⟨-, hsame | hbefore⟩
    · exact absurd hsame (by decide)
    · exact hafter (hd.eq_extraction ▸ hbefore)
  · exact ⟨textField "plate",
      ⟨carDecl [textField "plate"], rfl, List.mem_singleton_self _, rfl⟩, rfl⟩
  · exact ⟨_, ⟨(Relation.TransGen.single hcar).tail hvehicle, by decide⟩, vehicle_exposes_plate⟩

/-- The plate of a taxi counts as its own if only vehicles have plates. And if cars refer to taxis,
it depends on which of the two are looked at first. -/
theorem taxi_plate_unmarked :
    (∃ d t p, Extracts (.ofDocument (fleet [textField "seats"])) {} d ∧
      d.types.ClassType "App\\Entity\\Taxi" t ∧ t.properties.get? "plate" = some p ∧
      p.inherited = false ∧
      (Catalog.ofDocument (fleet [textField "seats"])).Ancestor "App\\Entity\\Taxi"
        "App\\Entity\\Vehicle" ∧
      (Catalog.ofDocument (fleet [textField "seats"])).Exposes "App\\Entity\\Vehicle" "plate") ∧
    (∃ d t p, Extracts (.ofDocument { classes := [taxiDecl, hiredCarDecl, vehicleDecl] }) {} d ∧
      d.types.ClassType "App\\Entity\\Taxi" t ∧ t.properties.get? "plate" = some p ∧
      p.inherited = true) ∧
    ∃ d t p, Extracts (.ofDocument { classes := [hiredCarDecl, taxiDecl, vehicleDecl] }) {} d ∧
      d.types.ClassType "App\\Entity\\Taxi" t ∧ t.properties.get? "plate" = some p ∧
      p.inherited = false := by
  refine ⟨?_, exists_taxi _ _ (by decide +kernel) (by decide +kernel),
    exists_taxi _ _ (by decide +kernel) (by decide +kernel)⟩
  obtain ⟨d, t, p, hd, ht, hp, hmarked⟩ := exists_taxi (fleet [textField "seats"]) false
    (by decide +kernel) (by decide +kernel)
  obtain ⟨hcar, hvehicle⟩ := taxi_ancestors [textField "seats"]
  exact ⟨d, t, p, hd, ht, hp, hmarked, ⟨(Relation.TransGen.single hcar).tail hvehicle, by decide⟩,
    vehicle_exposes_plate⟩

end HydraClient
