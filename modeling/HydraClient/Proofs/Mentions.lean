import HydraClient.Proofs.Framing
import HydraClient.Proofs.Seeding

/-! # Names that types mention

Whatever a property is related to is registered before the property is built, and so is every parent
of a class. Types are never taken away again, so the names that a type mentions lead to types.
-/
namespace HydraClient

open Metadata TypeRegistry Model Operations

def Property.Mentions (p : Property) (n : String) : Prop := p.related = some n ∨ p.enumName = some n

/-- The names that the properties of a type and its factory go by are registered. -/
structure TypeEntry.ClosedIn (t : TypeEntry) (r : TypeRegistry) : Prop where
  properties : ∀ p ∈ t.properties.values, ∀ n, p.Mentions n → ∃ u, r.get? n = some u
  supers : t.hasFactory = true → ∀ n ∈ t.supers, ∃ u, r.get? n = some u

def TypeRegistry.Closed (r : TypeRegistry) : Prop := ∀ n t, r.get? n = some t → t.ClosedIn r

variable {cat : Catalog} {r r' : TypeRegistry} {t u : TypeEntry} {p q : Property} {n c : String}

theorem TypeEntry.ClosedIn.of_grown (h : t.ClosedIn r) (hr : Grown r r') : t.ClosedIn r' where
  properties p hp n hn := hr.names (h.properties p hp n hn)
  supers hf n hn := hr.names (h.supers hf n hn)

def TypeRegistry.Resolves (r : TypeRegistry) (p : Property) : Prop :=
  ∀ n, p.Mentions n → ∃ u, r.get? n = some u

namespace TypeRegistry.Resolves

theorem withValue (h : r.Resolves p) (u : TypeUnion) (collection : Bool)
    (literal : Option String) : r.Resolves
      { p with union := u, isCollection := collection, defaultLiteral := literal } :=
  fun n hn => h n hn

theorem tie {source : Option String} {ref : Referent} (h : r.Resolves p) (hr : Coherent r)
    (href : Refers cat r c ref) : r.Resolves (Model.tie source c p ref) := by
  intro n hn
  cases href with
  | @model t _ ht =>
    rcases hn with hn | hn
    · obtain rfl := Option.some.inj (relate_names.1.symm.trans hn)
      exact ⟨t, (hr.of_lookupSource ht).2.1⟩
    · exact h n (.inr (relate_names.2.symm.trans hn))
  | @enumeration t _ ht =>
    rcases hn with hn | hn
    · exact h n (.inl (by simpa [Model.tie] using hn))
    · obtain rfl := Option.some.inj (importType_enumName.symm.trans hn)
      exact ⟨t, (hr.of_lookupSource ht).2.1⟩
  | datetime | identifier | passthrough => exact h n hn

theorem withNull (t : FieldType) (h : r.Resolves p) : r.Resolves (Model.withNull t p) := by
  unfold Model.withNull
  split
  · exact h.withValue _ _ _
  · exact h

theorem element {source : Option String} {value : FieldType} {e : String} (h : r.Resolves p)
    (hr : Coherent r) (he : Element cat r source value p e q) : r.Resolves q := by
  cases he with
  | scalar | mixed => exact h
  | @related c _ ref _ _ href he =>
    have htie : r.Resolves (Model.tie source (ClassName.relative c) p ref) := h.tie hr href
    have hq : q = (elementOf source (ClassName.relative c) p ref).2 := by rw [he]
    rw [hq]
    unfold elementOf
    split
    · exact fun n hn => htie n hn
    · exact htie

theorem formed {source : Option String} {field : Field} {form : FieldType} (h : r.Resolves p)
    (hr : Coherent r) (hq : Formed cat r source field form p q) : r.Resolves q := by
  have hnull := h.withNull form
  cases hq with
  | scalar | array | object => exact hnull.withValue _ _ _
  | collection _ he => exact (hnull.element hr he).withValue _ _ _
  | @referring c ref _ href _ =>
    have htie : r.Resolves (Model.tie source (ClassName.relative c) _ ref) := hnull.tie hr href
    exact htie.withValue _ _ _
  | @defaulting c _ e _ href _ =>
    have htie : r.Resolves (Model.tie source (ClassName.relative c) _ (.enumeration e)) :=
      hnull.tie hr href
    exact htie.withValue _ _ _

theorem built {source : Option String} {field : Field} {inherited : Bool} (hr : Coherent r)
    (hp : Built cat r source field inherited p) : r.Resolves p := by
  have hblank : r.Resolves (blank field inherited) := by
    rintro n (hn | hn) <;> cases hn
  exact Passes.invariant hp hblank fun _ _ _ _ hq hf => hq.formed hr hf

end TypeRegistry.Resolves

namespace TypeEntry.ClosedIn

theorem of_empty (hp : t.properties = .empty) (hs : t.supers = []) : t.ClosedIn r where
  properties p hmem := by
    rw [hp] at hmem
    cases hmem
  supers _ n hn := by
    rw [hs] at hn
    cases hn

theorem extend {file : Option String} (h : t.ClosedIn r) (hn : ∃ u, r.get? n = some u) :
    ({ t with supers := t.supers ++ [n] }.addImport file n).ClosedIn r := by
  have hproperties : ({ t with supers := t.supers ++ [n] }.addImport file n).properties =
      t.properties := rfl
  have hsupers : ({ t with supers := t.supers ++ [n] }.addImport file n).supers =
      t.supers ++ [n] := rfl
  have hfactory : ({ t with supers := t.supers ++ [n] }.addImport file n).hasFactory =
      t.hasFactory := rfl
  constructor
  · rw [hproperties]
    exact h.properties
  · rw [hfactory, hsupers]
    intro hf m hm
    rcases List.mem_append.1 hm with hm | hm
    · exact h.supers hf m hm
    · obtain rfl := List.mem_singleton.1 hm
      exact hn

theorem addProperty (h : t.ClosedIn r) (hp : r.Resolves p) : (t.addProperty p).ClosedIn r where
  properties q hq := by
    rcases OrderedMap.mem_values_insert hq with rfl | hq
    · exact hp
    · exact h.properties q hq
  supers := h.supers

end TypeEntry.ClosedIn

theorem closedIn_listType {config : Config} {entry : EndpointEntry}
    {resource : TypeEntry} {e : Exposure} {o : Operation} {d : Derivation} :
    (listType config entry resource e o d).ClosedIn r where
  properties p hp n hn := by
    obtain ⟨k, hk⟩ := OrderedMap.mem_values_iff.1 hp
    obtain ⟨f, -, hf⟩ := List.mem_map.1 (OrderedMap.mem_of_get?_ofList hk)
    obtain ⟨-, rfl⟩ := Prod.mk.inj hf
    rcases hn with hn | hn <;> cases hn
  supers hfactory := by
    have hnone : (listType config entry resource e o d).hasFactory = false :=
      (congrArg TypeEntry.hasFactory (listType_head config entry resource e o d) :)
    rw [hnone] at hfactory
    cases hfactory

namespace Grown

theorem of_growth (hr : Coherent r) (hg : Growth cat r r') : Grown r r' := by
  cases hg with
  | @opened name className shape _ hl hn =>
    refine .put rfl fun held hheld => ?_
    rw [show r.get? (bare name className shape).name = none
      from hr.resolveName_fresh hl hn] at hheld
    cases hheld
  | @enumerated name className file shape _ _ hl hn _ =>
    refine .put rfl fun held hheld => ?_
    rw [show r.get? (nativeEnum name className file shape).name = none from
      hr.resolveName_fresh hl hn] at hheld
    cases hheld
  | @extended _ _ _ p => exact .modify (head_withParent p)
  | addressed => exact .modify head_withAddress
  | filled => exact .modify fun t => t.head_addProperty _
  | @listed entry shape resource e o d _ _ _ _ _ _ _ _ hheld =>
    refine .put listType_source fun held hh => ?_
    rw [listType_source]
    exact hheld held (by rwa [listType_name] at hh)

theorem of_grows (hr : Coherent r) (hg : Grows cat r r') : Grown r r' := by
  induction hg with
  | refl => exact .refl r
  | tail _ step ih => exact ih.trans (.of_growth (ih.coherent hr) step)

end Grown

namespace TypeRegistry.Closed

theorem of_change (h : r.Closed) (hchange : ChangesAt n t r r') (hr : Grown r r')
    (ht : t.ClosedIn r') : r'.Closed := fun _ _ =>
  hchange.forall_entries (fun hu => (h _ _ hu).of_grown hr) ht

theorem modify {name : String} {className : String} {shape : ClassDecl}
    {f : TypeEntry → TypeEntry} (h : r.Closed) (ho : Opened cat r name className shape)
    (hf : ∀ t, (f t).head = t.head) (hclosed : ∀ t, t.ClosedIn r → (f t).ClosedIn r) :
    (r.modify name f).Closed := by
  obtain ⟨t, ht, -⟩ := ho.registered
  have hgrown : Grown r (r.modify name f) := .modify hf
  exact h.of_change (.modify ht) hgrown ((hclosed t (h _ _ ht)).of_grown hgrown)

theorem grow (h : r.Closed) (ht : Traced cat r) (hg : Growth cat r r') : r'.Closed := by
  have hgrown := Grown.of_growth ht.coherent hg
  cases hg with
  | opened => exact h.of_change (.put r _) hgrown (.of_empty rfl rfl)
  | enumerated => exact h.of_change (.put r _) hgrown (.of_empty rfl rfl)
  | @extended name className shape p ho hp =>
    obtain ⟨c, -, hl⟩ := lookupSource_of_parentOf hp
    exact h.modify ho (head_withParent p) fun t hclosed =>
      hclosed.extend ⟨p, (ht.coherent.of_lookupSource hl).2.1⟩
  | addressed ho _ =>
    obtain ⟨u, hu, -⟩ := ht.item
    exact h.modify ho head_withAddress fun t hclosed => hclosed.extend ⟨u, hu⟩
  | filled ho _ _ hp _ =>
    exact h.modify ho (fun t => t.head_addProperty _) fun t hclosed =>
      hclosed.addProperty (.built ht.coherent hp)
  | listed => exact h.of_change (.put r _) hgrown closedIn_listType

theorem grows (h : r.Closed) (ht : Traced cat r) (hg : Grows cat r r') : r'.Closed := by
  induction hg with
  | refl => exact h
  | tail hg step ih => exact ih.grow (ht.grows hg) step

theorem of_exactly {hydra : String} (h : BaseTypes.Exactly (BaseTypes.all hydra) r) :
    r.Closed := by
  intro n t ht
  have hshared := BaseTypes.shared_of_mem (h.among ht)
  constructor
  · intro p hp m hm
    have hplain := hshared.properties p hp
    rw [Property.Mentions, hplain.related, hplain.enumName] at hm
    rcases hm with hm | hm <;> cases hm
  · intro hfactory
    rw [hshared.hasFactory] at hfactory
    cases hfactory

end TypeRegistry.Closed
end HydraClient
