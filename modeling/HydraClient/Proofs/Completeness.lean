import HydraClient.Proofs.FieldTokens
import HydraClient.Proofs.Reading
import HydraClient.Proofs.Seeding

/-! # Completeness of extraction

A class is registered before the classes that it leads to are looked at, so on the way some classes
are still pending, with a part of their fields. Every other class in the registry has all of its
fields, and what it refers to is in the registry as well.
-/
namespace HydraClient

open Metadata TypeRegistry

namespace Model

variable {cat : Catalog} {r r' : TypeRegistry} {shape : ClassDecl} {done : List Field}
  {t : TypeEntry} {pending : List String} {c n name : String} {f : TypeEntry → TypeEntry}

structure Filled (cat : Catalog) (r : TypeRegistry) (shape : ClassDecl) (done : List Field)
    (t : TypeEntry) : Prop where
  properties : t.properties.keys = (done.filter (·.isExposed)).map (·.name)
  supers : ∀ n ∈ t.supers, n = "HydraItem" ∨ r.Renders n
  parent : ∀ n, shape.parent = some n → n ≠ "" → cat.classify n = .model →
    ∃ p, r.lookupSource n = some p ∧ p.name ∈ t.supers
  typed : ∀ f ∈ done, f.isExposed = true →
    ∃ p, t.properties.get? f.name = some p ∧ Typed cat r f.types p

theorem Filled.carry (h : Filled cat r shape done t) (hr : Carries r r') :
    Filled cat r' shape done t where
  properties := h.properties
  supers n hn := (h.supers n hn).imp_right hr.renders
  parent n hp hne hc := by
    obtain ⟨p, hl, hmem⟩ := h.parent n hp hne hc
    obtain ⟨u, hu, hhead⟩ := hr.lookupSource hl
    exact ⟨u, hu, (TypeEntry.name_of_head hhead).symm ▸ hmem⟩
  typed f hf he := by
    obtain ⟨p, hp, htyped⟩ := h.typed f hf he
    exact ⟨p, hp, htyped.carry hr⟩

theorem withParent_supers (p t : TypeEntry) :
    (withParent p t).supers = t.supers ++ [p.name] := by
  unfold withParent
  cases p.file <;> rfl

theorem withParent_properties (p t : TypeEntry) : (withParent p t).properties = t.properties := by
  unfold withParent
  cases p.file <;> rfl

namespace Filled

variable {field : Field} {p : Property} {parent : TypeEntry}

theorem start (hsupers : t.supers = []) (hproperties : t.properties = .empty)
    (habsent : ∀ n, shape.parent = some n → n ≠ "" → cat.classify n ≠ .model) :
    Filled cat r shape [] t where
  properties := by
    rw [hproperties]
    rfl
  supers := by simp [hsupers]
  parent n hn hne hmodel := absurd hmodel (habsent n hn hne)
  typed := nofun

theorem withParent (hsupers : t.supers = []) (hproperties : t.properties = .empty)
    (hn : shape.parent = some n) (hl : r.lookupSource n = some parent)
    (hrendered : r.Renders parent.name) : Filled cat r shape [] (withParent parent t) where
  properties := by
    rw [withParent_properties, hproperties]
    rfl
  supers m hm := by
    rw [withParent_supers, hsupers, List.nil_append, List.mem_singleton] at hm
    exact .inr (hm ▸ hrendered)
  parent m hm _ _ := by
    obtain rfl := Option.some.inj (hn.symm.trans hm)
    exact ⟨parent, hl, by simp [withParent_supers]⟩
  typed := nofun

theorem withAddress (h : Filled cat r shape done t) :
    Filled cat r shape done (withAddress t) := by
  have hsupers : (Model.withAddress t).supers = t.supers ++ ["HydraItem"] := rfl
  refine ⟨h.properties, fun n hn => ?_, fun n hp hne hm => ?_, h.typed⟩
  · rw [hsupers] at hn
    rcases List.mem_append.1 hn with hn | hn
    · exact h.supers n hn
    · exact .inl (List.mem_singleton.1 hn)
  · obtain ⟨p, hl, hmem⟩ := h.parent n hp hne hm
    exact ⟨p, hl, hsupers ▸ List.mem_append_left _ hmem⟩

theorem addProperty (h : Filled cat r shape done t) (hexposed : field.isExposed = true)
    (hfresh : field.name ∉ done.map (·.name)) (hname : p.name = field.name)
    (htyped : Typed cat r field.types p) :
    Filled cat r shape (done ++ [field]) (t.addProperty p) := by
  refine ⟨?_, h.supers, h.parent, fun f hf hf' => ?_⟩
  · have hkeys : p.name ∉ t.properties.keys := by
      rw [h.properties, hname]
      exact fun hmem => hfresh ((List.filter_sublist.map _).subset hmem)
    rw [TypeEntry.addProperty, OrderedMap.keys_insert, if_neg hkeys, h.properties, hname]
    simp [hexposed]
  · rw [TypeEntry.addProperty, OrderedMap.get?_insert, hname]
    rcases List.mem_append.1 hf with hf | hf
    · have hne : f.name ≠ field.name := fun e => hfresh (e ▸ List.mem_map_of_mem hf)
      rw [if_neg hne]
      exact h.typed f hf hf'
    · obtain rfl := List.mem_singleton.1 hf
      exact ⟨p, if_pos rfl, htyped⟩

theorem skip (h : Filled cat r shape done t) (hhidden : field.isExposed = false) :
    Filled cat r shape (done ++ [field]) t := by
  refine ⟨by simp [h.properties, hhidden], h.supers, h.parent, fun f hf hf' => ?_⟩
  rcases List.mem_append.1 hf with hf | hf
  · exact h.typed f hf hf'
  · obtain rfl := List.mem_singleton.1 hf
    rw [hhidden] at hf'
    cases hf'

end Filled

/-- Every class in the registry that is not pending has all of its fields. -/
structure Standing (cat : Catalog) (pending : List String) (r : TypeRegistry) : Prop
    extends Described cat r where
  filled : ∀ {c shape t}, cat.class? c = some shape → r.lookupSource c = some t → c ∉ pending →
    Filled cat r shape shape.fields t

namespace Standing

theorem put {pending' : List String} (h : Standing cat pending r)
    (hl : r.lookupSource c = none) (hfree : r.get? t.name = none) (ht : t.source = some c)
    (hclass : ∀ shape, cat.class? c = some shape →
      t.head = (bare t.name c shape).head ∧ c ∈ pending')
    (henum : cat.classify c = .enumeration → t.isRendered = true) (hsub : pending ⊆ pending') :
    Standing cat pending' (r.put t) := by
  have hcarries : Carries r (r.put t) := .of_extends (.put hl h.coherent ht hfree)
  have hput : ∀ {c' u}, (r.put t).lookupSource c' = some u →
      c' = c ∧ u = t ∨ c' ≠ c ∧ r.lookupSource c' = some u := by
    intro c' u hu
    by_cases hc : c' = c
    · rw [hc, lookupSource_put ht] at hu
      exact .inl ⟨hc, (Option.some.inj hu).symm⟩
    · rw [h.coherent.lookupSource_put_of_ne hfree ht hc] at hu
      exact .inr ⟨hc, hu⟩
  refine ⟨⟨h.coherent.put ht (by simp [hfree]), ?_, ?_⟩, ?_⟩
  · intro c' shape u hc hu
    rcases hput hu with ⟨rfl, rfl⟩ | ⟨-, hu⟩
    · exact (hclass shape hc).1
    · exact h.classes hc hu
  · intro c' u hc hu
    rcases hput hu with ⟨rfl, rfl⟩ | ⟨-, hu⟩
    · exact henum hc
    · exact h.enums hc hu
  · intro c' shape u hc hu hpending
    rcases hput hu with ⟨rfl, rfl⟩ | ⟨-, hu⟩
    · exact absurd (hclass shape hc).2 hpending
    · exact (h.filled hc hu fun hmem => hpending (hsub hmem)).carry hcarries

theorem modify (h : Standing cat pending r) (ho : Opened cat r name c shape) (hc : c ∈ pending)
    (hf : ∀ t, (f t).head = t.head) : Standing cat pending (r.modify name f) := by
  have hheads : ∀ {c' u}, (r.modify name f).lookupSource c' = some u →
      ∃ v, r.lookupSource c' = some v ∧ u.head = v.head ∧ (c' ≠ c → u = v) := by
    intro c' u hu
    rw [lookupSource_modify] at hu
    split at hu
    · rename_i hname
      obtain ⟨v, hv, rfl⟩ := Option.map_eq_some_iff.1 hu
      refine ⟨v, hv, hf v, fun hne => absurd ?_ hne⟩
      obtain ⟨w, hw, hs⟩ := h.coherent.sourced hname
      obtain ⟨w', hw', hs'⟩ := h.coherent.sourced ho.indexed
      obtain rfl := Option.some.inj (hw.symm.trans hw')
      exact Option.some.inj (hs.symm.trans hs')
    · exact ⟨u, hu, rfl, fun _ => rfl⟩
  refine ⟨⟨h.coherent.modify hf, ?_, ?_⟩, ?_⟩
  · intro c' shape' u hc' hu
    obtain ⟨v, hv, hhead, -⟩ := hheads hu
    rw [hhead, TypeEntry.name_of_head hhead]
    exact h.classes hc' hv
  · intro c' u hc' hu
    obtain ⟨v, hv, hhead, -⟩ := hheads hu
    exact (TypeEntry.isRendered_of_head hhead).trans (h.enums hc' hv)
  · intro c' shape' u hc' hu hpending
    obtain ⟨v, hv, -, hsame⟩ := hheads hu
    obtain rfl := hsame fun e => hpending (e ▸ hc)
    exact (h.filled hc' hv hpending).carry (.modify hf)

theorem put_class (h : Standing cat pending r) (hc : cat.class? c = some shape)
    (hl : r.lookupSource c = none) (hfree : r.get? name = none) :
    Standing cat (c :: pending) (r.put (bare name c shape)) := by
  refine h.put (t := bare name c shape) hl hfree rfl ?_ ?_ (List.subset_cons_self c pending)
  · intro shape' hshape'
    obtain rfl := Option.some.inj (hc.symm.trans hshape')
    exact ⟨rfl, List.mem_cons_self⟩
  · intro henum
    rw [Catalog.classify_eq_model_iff.2 ⟨shape, hc⟩] at henum
    cases henum

theorem isRendered_nativeEnum {file : String} {shape : EnumDecl} (hf : file ≠ "") :
    (nativeEnum name c file shape).isRendered = true := by
  simp [TypeEntry.isRendered, nativeEnum, isNonempty, hf]

theorem alike_resolveEnum (hc : cat.classify c = .enumeration) (file : Option String) :
    Alike (fun s => Standing cat pending s.types) (fun s => Standing cat pending s.types)
      (resolveEnum cat c file) (resolveEnum cat c file) := by
  refine alike_resolveEnum_of_put file fun {s n file shape} hs hl hn _ hfile => ?_
  have hfree := hs.coherent.resolveName_fresh hl hn
  refine hs.put (t := nativeEnum n c file shape) hl hfree rfl ?_ ?_ (List.Subset.refl _)
  · intro shape' hc'
    rw [Catalog.classify_eq_model_iff.2 ⟨shape', hc'⟩] at hc
    cases hc
  · exact fun _ => isRendered_nativeEnum hfile

end Standing

structure Underway (cat : Catalog) (pending : List String) (name c : String) (shape : ClassDecl)
    (done : List Field) (r : TypeRegistry) : Prop where
  standing : Standing cat pending r
  opened : Opened cat r name c shape
  filled : ∀ t, r.get? name = some t → Filled cat r shape done t

theorem Underway.extend (h : Underway cat pending name c shape done r) (hr : Extends r r')
    (hs : Standing cat pending r') : Underway cat pending name c shape done r' where
  standing := hs
  opened := h.opened.of_extends hr
  filled t ht := by
    obtain ⟨u, hu, -⟩ := h.opened.registered
    obtain rfl := Option.some.inj ((hr.entries hu).symm.trans ht)
    exact (h.filled u hu).carry (.of_extends hr)

theorem underway_modify {r : TypeRegistry} (hs : Standing cat pending r)
    (ho : Opened cat r name c shape) (hc : c ∈ pending) (hf : ∀ t, (f t).head = t.head)
    (hfilled : ∀ t, r.get? name = some t → Filled cat (r.modify name f) shape done (f t)) :
    Underway cat pending name c shape done (r.modify name f) where
  standing := hs.modify ho hc hf
  opened := ho.modify hf
  filled t ht := by
    rw [get?_modify, if_pos rfl] at ht
    obtain ⟨u, hu, rfl⟩ := Option.map_eq_some_iff.1 ht
    exact hfilled u hu

theorem Underway.address (h : Underway cat pending name c shape done r) (hc : c ∈ pending) :
    Underway cat pending name c shape done (r.modify name withAddress) := by
  refine underway_modify h.standing h.opened hc head_withAddress fun t ht => ?_
  exact ((h.filled t ht).carry (.modify head_withAddress)).withAddress

/-- A class with all of its fields is not pending any more. -/
theorem Underway.close (h : Underway cat (c :: pending) name c shape shape.fields r)
    (hc : cat.class? c = some shape) : Standing cat pending r where
  toDescribed := h.standing.toDescribed
  filled {c' shape' t} hc' ht hpending := by
    by_cases he : c' = c
    · subst he
      obtain rfl := Option.some.inj (hc.symm.trans hc')
      obtain ⟨u, hu, hget⟩ := h.opened.lookupSource
      obtain rfl := Option.some.inj (hu.symm.trans ht)
      exact h.filled u hget
    · exact h.standing.filled hc' ht (by simp [he, hpending])

section Classes

variable {visit : String → Drafting TypeEntry} {s s' : Draft}
  (hv : ∀ c, Finds cat (visit c) c)
  (hk : ∀ c, Alike (fun s => Standing cat pending s.types) (fun s => Standing cat pending s.types)
    (visit c) (visit c))

include hv hk

theorem underway_of_parentStep {parent : Option String} (hc : c ∈ pending)
    (hs : Standing cat pending s.types) (ho : Opened cat s.types name c shape)
    (hbare : ∀ t, s.types.get? name = some t → t.supers = [] ∧ t.properties = .empty)
    (h : ParentStep cat visit name shape s parent s') :
    Underway cat pending name c shape [] s'.types := by
  cases h with
  | skip habsent => exact ⟨hs, ho, fun t ht => .start (hbare t ht).1 (hbare t ht).2 habsent⟩
  | @add n p m hp hne hmodel hvisit =>
    obtain ⟨hextracted, hl⟩ := hv n hs.coherent hvisit
    have hm : Standing cat pending m.types := (hk n s hs).2 p m hvisit
    refine underway_modify hm (ho.of_extends hextracted.kept) hc (head_withParent p) ?_
    intro t ht
    obtain ⟨u, hu, -⟩ := ho.registered
    obtain rfl := Option.some.inj ((hextracted.kept.entries hu).symm.trans ht)
    obtain ⟨hsupers, hproperties⟩ := hbare u hu
    exact (Filled.withParent hsupers hproperties hp hl (hm.renders_class hmodel hl)).carry
      (.modify (head_withParent p))

theorem underway_of_fieldStep {parent : Option String} {field : Field}
    {before after : List Field} (hc : c ∈ pending)
    (hnodup : (shape.fields.map (·.name)).Nodup) (hsplit : shape.fields = before ++ field :: after)
    (hU : Underway cat pending name c shape before s.types)
    (h : FieldStep cat visit (bare name c shape) c parent field s s') :
    Underway cat pending name c shape (before ++ [field]) s'.types := by
  cases h with
  | skip hhidden =>
    exact ⟨hU.standing, hU.opened, fun t ht => (hU.filled t ht).skip hhidden⟩
  | @add p m hexposed hbuild =>
    have hfile : Houses cat ("interfaces/" ++ name) := hU.opened.houses
    have he : ∀ c file, cat.classify c = .enumeration →
        Alike (fun s => Standing cat pending s.types) (fun s => Standing cat pending s.types)
          (resolveEnum cat c file) (resolveEnum cat c file) :=
      fun c file hc => Standing.alike_resolveEnum hc file
    obtain ⟨hextracted, hbuilt⟩ :=
      built_of_buildProperty hv rfl hfile hU.standing.coherent hbuild
    have hname : p.name = field.name := hbuilt.sameField.name
    have htyped : Typed cat m.types field.types p :=
      typed_of_buildProperty (fun _ hs => hs.toDescribed) hv hk he rfl hfile hU.standing hbuild
    have hm : Standing cat pending m.types :=
      (alike_buildProperty _ (fun _ _ c _ => ⟨fun _ => hk c, fun hc file => he c file hc⟩) s
        hU.standing).2 p m hbuild
    have hfresh : field.name ∉ before.map (·.name) := by
      rw [hsplit, List.map_append, List.nodup_append] at hnodup
      exact fun hmem => hnodup.2.2 _ hmem _ (by simp) rfl
    have hUm := hU.extend hextracted.kept hm
    refine underway_modify hm hUm.opened hc (fun t => t.head_addProperty p) fun t ht => ?_
    exact ((hUm.filled t ht).addProperty hexposed hfresh hname htyped).carry
      (.modify fun t => t.head_addProperty p)

end Classes

theorem standing_of_extractNew {visit : String → Drafting TypeEntry} {s s' : Draft}
    (hdistinct : ∀ c shape, cat.class? c = some shape → (shape.fields.map (·.name)).Nodup)
    (hv : ∀ c, Finds cat (visit c) c)
    (hk : ∀ pending c, Alike (fun s => Standing cat pending s.types)
      (fun s => Standing cat pending s.types) (visit c) (visit c))
    (hs : Standing cat pending s.types) (hl : s.types.lookupSource c = none)
    (h : Yields (extractNew cat visit c) s t s') : Standing cat pending s'.types := by
  obtain ⟨shape, name, parent, m, m', hsteps⟩ := exists_newSteps h
  have hfree := hs.coherent.resolveName_fresh hl hsteps.resolved
  have hopen := (Filling.of_open hsteps.described hs.coherent hl hsteps.resolved).opened
  have hbare : ∀ t, (s.types.put (bare name c shape)).get? name = some t →
      t.supers = [] ∧ t.properties = .empty := by
    intro t ht
    have hget : (s.types.put (bare name c shape)).get? name = some (bare name c shape) := by
      rw [get?_put]
      exact if_pos rfl
    obtain rfl := Option.some.inj (hget.symm.trans ht)
    exact ⟨rfl, rfl⟩
  have hparented : Underway cat (c :: pending) name c shape [] m.types :=
    underway_of_parentStep hv (hk _) List.mem_cons_self (hs.put_class hsteps.described hl hfree)
      hopen hbare hsteps.parented
  have haddressed : Underway cat (c :: pending) name c shape [] m'.types := by
    rcases hsteps.addressed with rfl | ⟨-, rfl⟩
    · exact hparented
    · exact hparented.address List.mem_cons_self
  have hfilled : Underway cat (c :: pending) name c shape shape.fields s'.types :=
    hsteps.filled.prefix_invariant
      (I := fun done m => Underway cat (c :: pending) name c shape done m.types) haddressed
      fun before field after m m' hsplit hI hR =>
        underway_of_fieldStep hv (hk _) List.mem_cons_self (hdistinct c shape hsteps.described)
          hsplit hI hR
  exact hfilled.close hsteps.described

theorem standing_of_extractWithin
    (hdistinct : ∀ c shape, cat.class? c = some shape → (shape.fields.map (·.name)).Nodup)
    (depth : Nat) (pending : List String) (c : String) :
    Alike (fun s => Standing cat pending s.types) (fun s => Standing cat pending s.types)
      (extractWithin cat depth c) (extractWithin cat depth c) := by
  -- A visit has one more class pending than its caller, so the invariant is for all lists of them.
  induction depth generalizing pending c with
  | zero => exact .throw _
  | succ depth ih =>
    refine .same fun s t s' hs h => ?_
    rcases yields_extractWithin_succ h with ⟨-, rfl⟩ | ⟨hl, hnew⟩
    · exact hs
    · exact standing_of_extractNew hdistinct (extractWithin_finds depth) ih hs hl hnew

end Model
end HydraClient
