import HydraClient.Proofs.Depth
import HydraClient.Proofs.Fields

/-! # The types of fields

The type of a property is put together from the forms that the values of its field may take. Which
tokens a form offers follows from the registry that extraction leaves, where every class that the
field refers to stands as it is described.
-/
namespace HydraClient

open Metadata TypeRegistry

namespace TypeRegistry

variable {r r' : TypeRegistry} {c n : String} {t : TypeEntry}

def Renders (r : TypeRegistry) (n : String) : Prop :=
  ∃ t, r.get? n = some t ∧ t.isRendered = true

structure Carries (r r' : TypeRegistry) : Prop where
  keeps : Keeps r r'
  sources : ∀ {s n}, r.sources.get? s = some n → r'.sources.get? s = some n

namespace Carries

theorem of_extends (h : Extends r r') : Carries r r' := ⟨Keeps.of_extends h, h.sources⟩

theorem modify {f : TypeEntry → TypeEntry} (hf : ∀ t, (f t).head = t.head) :
    Carries r (r.modify n f) := ⟨Keeps.modify hf, id⟩

theorem lookupSource (h : Carries r r') (ht : r.lookupSource c = some t) :
    ∃ u, r'.lookupSource c = some u ∧ u.head = t.head := by
  obtain ⟨n, hn, hget⟩ := lookupSource_eq_some.1 ht
  obtain ⟨u, hu, hhead⟩ := h.keeps.heads hget
  exact ⟨u, lookupSource_eq_some.2 ⟨n, h.sources hn, hu⟩, hhead⟩

theorem renders (h : Carries r r') (hn : r.Renders n) : r'.Renders n := by
  obtain ⟨t, ht, hr⟩ := hn
  obtain ⟨u, hu, hhead⟩ := h.keeps.heads ht
  exact ⟨u, hu, (TypeEntry.isRendered_of_head hhead).trans hr⟩

end Carries
end TypeRegistry

namespace Model

section Offers

variable (cat : Catalog) (r : TypeRegistry)

/-- What stands for a value of a class. A class with an exposure may be given by its identifier. -/
def alternatives (c : String) : List String :=
  match cat.classify c with
  | .model =>
    match r.lookupSource c with
    | some t =>
      if (cat.class? c).any (·.isAddressable) then [t.name, reference t.name] else [t.name]
    | none => []
  | .enumeration => ((r.lookupSource c).map (·.name)).toList
  | .datetime => ["DateTime"]
  | .identifier => ["string"]
  | .passthrough => ["any"]
  | .unknown => []

def elementText (value : FieldType) : String :=
  match value.className with
  | some c => String.intercalate "|" (alternatives cat r (ClassName.relative c))
  | none => (scalar? value.builtin).getD "any"

def tokensOf (t : FieldType) : List String :=
  (if t.nullable then ["null"] else []) ++
    match formOf t with
    | .scalar word => [word]
    | .collection value => [collectionToken t (elementText cat r value)]
    | .array => ["Array<any>", "Record<number|string, any>"]
    | .record => ["Record<string, any>"]
    | .object c => alternatives cat r (ClassName.relative c)
    | .unknown => []

end Offers

def Settled (cat : Catalog) (r : TypeRegistry) (c : String) : Prop :=
  cat.classify c = .model ∨ cat.classify c = .enumeration → ∃ u, r.lookupSource c = some u

section Carrying

variable {cat : Catalog} {r r' : TypeRegistry} {c : String} {t : FieldType}

theorem Settled.carry (h : Settled cat r c) (hr : Carries r r') : Settled cat r' c := fun hc => by
  obtain ⟨t, ht⟩ := h hc
  obtain ⟨u, hu, -⟩ := hr.lookupSource ht
  exact ⟨u, hu⟩

theorem alternatives_carry (h : Settled cat r c) (hr : Carries r r') :
    alternatives cat r' c = alternatives cat r c := by
  unfold alternatives
  cases hc : cat.classify c with
  | model | enumeration =>
    obtain ⟨t, ht⟩ := h (by simp [hc])
    obtain ⟨u, hu, hhead⟩ := hr.lookupSource ht
    simp [ht, hu, TypeEntry.name_of_head hhead]
  | datetime | identifier | passthrough | unknown => rfl

theorem tokensOf_carry (h : ∀ c, referred? t = some c → Settled cat r c) (hr : Carries r r') :
    tokensOf cat r' t = tokensOf cat r t := by
  unfold tokensOf
  unfold referred? at h
  cases hform : formOf t with
  | collection value =>
    rw [hform] at h
    cases hclass : value.className with
    | none => simp [elementText, hclass]
    | some c =>
      have hsettled : Settled cat r (ClassName.relative c) := h _ (by simp [hclass])
      simp [elementText, hclass, alternatives_carry hsettled hr]
  | object c =>
    rw [hform] at h
    simp only [alternatives_carry (h _ rfl) hr]
  | scalar | array | record | unknown => rfl

end Carrying

structure Described (cat : Catalog) (r : TypeRegistry) : Prop where
  coherent : Coherent r
  classes : ∀ {c shape t}, cat.class? c = some shape → r.lookupSource c = some t →
    t.head = (bare t.name c shape).head
  enums : ∀ {c t}, cat.classify c = .enumeration → r.lookupSource c = some t →
    t.isRendered = true

section Described

variable {cat : Catalog} {r : TypeRegistry} {c n : String} {t : TypeEntry} {ref : Referent}
  {source : Option String} {p : Property}

theorem isRendered_bare (name className : String) (shape : ClassDecl) :
    (bare name className shape).isRendered = true := by
  simp [TypeEntry.isRendered, bare, isNonempty]

theorem Described.renders_class (h : Described cat r) (hc : cat.classify c = .model)
    (ht : r.lookupSource c = some t) : r.Renders t.name := by
  obtain ⟨shape, hshape⟩ := Catalog.classify_eq_model_iff.1 hc
  refine ⟨t, (h.coherent.of_lookupSource ht).2.1, ?_⟩
  rw [TypeEntry.isRendered_of_head (h.classes hshape ht), isRendered_bare]

theorem Described.renders_enum (h : Described cat r) (hc : cat.classify c = .enumeration)
    (ht : r.lookupSource c = some t) : r.Renders t.name :=
  ⟨t, (h.coherent.of_lookupSource ht).2.1, h.enums hc ht⟩

theorem Described.alternatives_eq (h : Described cat r) (href : Refers cat r c ref) :
    ref.alternatives = alternatives cat r c := by
  unfold alternatives
  cases href with
  | @model t hc ht =>
    obtain ⟨shape, hshape⟩ := Catalog.classify_eq_model_iff.1 hc
    have haddress : t.addressable = shape.isAddressable :=
      (congrArg TypeEntry.addressable (h.classes hshape ht) :)
    simp [hc, ht, hshape, Referent.alternatives, haddress]
  | enumeration hc ht => simp [hc, ht, Referent.alternatives]
  | datetime hc | identifier hc | passthrough hc => simp [hc, Referent.alternatives]

theorem Refers.settled (href : Refers cat r c ref) : Settled cat r c := by
  intro hc
  cases href with
  | model _ ht => exact ⟨_, ht⟩
  | enumeration _ ht => exact ⟨_, ht⟩
  | datetime hk | identifier hk | passthrough hk => simp [hk] at hc

/-- The model and the enum that a property is newly tied to are written. -/
structure Grounded (r : TypeRegistry) (p q : Property) : Prop where
  related : ∀ n, q.related = some n → p.related = some n ∨ r.Renders n
  enumName : ∀ n, q.enumName = some n → p.enumName = some n ∨ r.Renders n

theorem Grounded.of_eq {q : Property} (hr : q.related = p.related) (he : q.enumName = p.enumName) :
    Grounded r p q :=
  ⟨fun _ h => .inl (hr ▸ h), fun _ h => .inl (he ▸ h)⟩

theorem Grounded.trans {q q' : Property} (h : Grounded r p q) (h' : Grounded r q q') :
    Grounded r p q' where
  related n hn := (h'.related n hn).elim (h.related n) .inr
  enumName n hn := (h'.enumName n hn).elim (h.enumName n) .inr

theorem grounded_value (p : Property) (u : TypeUnion) (collection : Bool)
    (literal : Option String) : Grounded r p
      { p with union := u, isCollection := collection, defaultLiteral := literal } :=
  .of_eq rfl rfl

theorem Described.grounded_tie (h : Described cat r) (href : Refers cat r c ref)
    (source : Option String) (p : Property) : Grounded r p (tie source c p ref) := by
  cases href with
  | model hc ht =>
    refine ⟨fun n hn => ?_, fun n hn => .inl (relate_names.2.symm.trans hn)⟩
    obtain rfl := Option.some.inj (relate_names.1.symm.trans hn)
    exact .inr (h.renders_class hc ht)
  | enumeration hc ht =>
    refine ⟨fun n hn => .inl (by simpa [tie] using hn), fun n hn => ?_⟩
    obtain rfl := Option.some.inj (importType_enumName.symm.trans hn)
    exact .inr (h.renders_enum hc ht)
  | datetime | identifier | passthrough => exact .of_eq rfl rfl

end Described

section Tokens

variable {cat : Catalog} {visit : String → Drafting TypeEntry} {owner : TypeEntry} {field : Field}
  {file : String} {s s' : Draft} {p q : Property} {t : FieldType}

theorem withNull_addAll (ts : List String) : (withNull t p).union.addAll ts =
    p.union.addAll ((if t.nullable then ["null"] else []) ++ ts) := by
  unfold withNull
  split <;> rfl

theorem withNull_eq : withNull t p = { p with union := (withNull t p).union } := by
  unfold withNull
  split <;> rfl

theorem elementOf_ties (source : Option String) (c : String) (p : Property) (ref : Referent) :
    (elementOf source c p ref).2.related = (tie source c p ref).related ∧
      (elementOf source c p ref).2.enumName = (tie source c p ref).enumName := by
  unfold elementOf
  split <;> exact ⟨rfl, rfl⟩

structure Offered (cat : Catalog) (r : TypeRegistry) (t : FieldType) (p q : Property) : Prop where
  union : q.union = p.union.addAll (tokensOf cat r t)
  settled : ∀ c, referred? t = some c → Settled cat r c
  grounded : Grounded r p q

variable (hv : ∀ c, Finds cat (visit c) c) (ho : owner.file = some file) (hf : Houses cat file)
  (hs : Coherent s.types) (hd : Described cat s'.types)

include hv ho hf hs hd

omit hd in
/-- An element is a word that changes nothing, or the alternatives of a class that it is tied to. -/
theorem element_cases {value : FieldType} {e : String}
    (h : Yields (element cat visit owner field value p) s (e, q) s') :
    (value.className = none ∧ e = (scalar? value.builtin).getD "any" ∧ q = p) ∨
      ∃ c ref, value.className = some c ∧ Refers cat s'.types (ClassName.relative c) ref ∧
        (e, q) = elementOf owner.source (ClassName.relative c) p ref := by
  unfold element at h
  cases hclass : value.className with
  | none =>
    simp only [hclass] at h
    refine .inl ⟨rfl, ?_⟩
    cases hscalar : scalar? value.builtin with
    | some word =>
      simp only [hscalar] at h
      exact Prod.mk.inj (Yields.pure_iff.1 h).1
    | none =>
      simp only [hscalar] at h
      split at h
      · exact Prod.mk.inj (Yields.pure_iff.1 h).1
      · exact absurd h Yields.not_throw
  | some c =>
    simp only [hclass] at h
    obtain ⟨ref, m, href, h⟩ := Yields.bind_iff.1 h
    obtain ⟨he, rfl⟩ := Yields.pure_iff.1 h
    exact .inr ⟨c, ref, rfl, (refer_refers hv ho hf hs href).2, he⟩

theorem offered_of_element {value : FieldType} {e : String}
    (h : Yields (element cat visit owner field value p) s (e, q) s') :
    e = elementText cat s'.types value ∧ q.union = p.union ∧
      (∀ c, value.className = some c → Settled cat s'.types (ClassName.relative c)) ∧
      Grounded s'.types p q := by
  rcases element_cases hv ho hf hs h with ⟨hclass, rfl, rfl⟩ | ⟨c, ref, hclass, href, he⟩
  · exact ⟨by simp only [elementText, hclass], rfl, by simp [hclass], .of_eq rfl rfl⟩
  · obtain rfl := congrArg Prod.snd he
    obtain ⟨hrelated, henum⟩ := elementOf_ties owner.source (ClassName.relative c) p ref
    refine ⟨?_, sameValue_elementOf.union, ?_,
      (hd.grounded_tie href _ _).trans (.of_eq hrelated henum)⟩
    · simp only [elementText, hclass]
      rw [← hd.alternatives_eq href]
      exact congrArg Prod.fst he
    · intro c' hc'
      obtain rfl := Option.some.inj (hclass.symm.trans hc')
      exact Refers.settled href

omit hd in
theorem ties_of_applyClass {c : String} (h : Yields (applyClass cat visit owner field c p) s q s') :
    ∃ ref, Refers cat s'.types (ClassName.relative c) ref ∧
      q.union = p.union.addAll ref.alternatives ∧
      q.related = (tie owner.source (ClassName.relative c) p ref).related ∧
      q.enumName = (tie owner.source (ClassName.relative c) p ref).enumName ∧
      q.isCollection = p.isCollection := by
  obtain ⟨ref, m, href, h⟩ := Yields.bind_iff.1 h
  obtain ⟨-, hrefers⟩ := refer_refers hv ho hf hs href
  have htie : SameValue p (tie owner.source (ClassName.relative c) p ref) := sameValue_tie
  rw [← htie.isCollection]
  refine ⟨ref, ?_⟩
  cases ref with
  | enumeration e =>
    obtain ⟨case?, -, h⟩ := Yields.lift_bind.1 h
    cases case? <;>
    · obtain ⟨rfl, rfl⟩ := Yields.pure_iff.1 h
      exact ⟨hrefers, by dsimp only [withClass], by dsimp only [withClass],
        by dsimp only [withClass], by dsimp only [withClass]⟩
  | model | datetime | identifier | passthrough =>
    obtain ⟨rfl, rfl⟩ := Yields.pure_iff.1 h
    exact ⟨hrefers, by dsimp only [withClass], by dsimp only [withClass],
      by dsimp only [withClass], by dsimp only [withClass]⟩

theorem offered_of_applyType (h : Yields (applyType cat visit owner field p t) s q s') :
    Offered cat s'.types t p q := by
  rw [applyType_eq] at h
  have hunion := withNull_addAll (t := t) (p := p)
  have hrelated : (withNull t p).related = p.related := by rw [withNull_eq]
  have henum : (withNull t p).enumName = p.enumName := by rw [withNull_eq]
  have hties : Grounded s'.types p (withNull t p) := .of_eq hrelated henum
  generalize withNull t p = p' at h hunion hties
  cases hform : formOf t with
  | scalar word =>
    simp only [hform] at h
    obtain ⟨literal, -, h⟩ := Yields.lift_bind.1 h
    obtain ⟨rfl, rfl⟩ := Yields.pure_iff.1 h
    refine ⟨?_, by simp [referred?, hform], hties.trans (grounded_value _ _ _ _)⟩
    rw [tokensOf, hform, ← hunion]
    simp only [TypeUnion.addAll, List.foldl]
  | collection value =>
    simp only [hform] at h
    obtain ⟨⟨e, q'⟩, m, he, h⟩ := Yields.bind_iff.1 h
    obtain ⟨rfl, rfl⟩ := Yields.pure_iff.1 h
    obtain ⟨rfl, hsame, hsettled, hgrounded⟩ := offered_of_element hv ho hf hs hd he
    refine ⟨?_, ?_, (hties.trans hgrounded).trans (grounded_value _ _ _ _)⟩
    · rw [tokensOf, hform, ← hunion, ← hsame]
      simp only [withCollection, TypeUnion.addAll, List.foldl]
    · intro c hc
      rw [referred?, hform] at hc
      obtain ⟨c', hc', rfl⟩ := Option.map_eq_some_iff.1 hc
      exact hsettled c' hc'
  | array | record =>
    simp only [hform] at h
    obtain ⟨rfl, rfl⟩ := Yields.pure_iff.1 h
    refine ⟨?_, by simp [referred?, hform], hties.trans (grounded_value _ _ _ _)⟩
    rw [tokensOf, hform, ← hunion]
    simp only [TypeUnion.addAll, List.foldl]
  | object c =>
    simp only [hform] at h
    obtain ⟨ref, href, hadds, hrelated, henum, -⟩ := ties_of_applyClass hv ho hf hs h
    have hgrounded := (hd.grounded_tie href owner.source p').trans (.of_eq hrelated henum)
    refine ⟨?_, ?_, hties.trans hgrounded⟩
    · rw [hadds, hunion, tokensOf, hform, hd.alternatives_eq href]
    · intro c' hc'
      rw [referred?, hform] at hc'
      obtain rfl := Option.some.inj hc'
      exact Refers.settled href
  | unknown =>
    simp only [hform] at h
    exact absurd h Yields.not_throw

end Tokens

structure Typed (cat : Catalog) (r : TypeRegistry) (types : List FieldType) (p : Property) :
    Prop where
  union : p.union = .ofTokens (types.flatMap (tokensOf cat r))
  settled : ∀ t ∈ types, ∀ c, referred? t = some c → Settled cat r c
  related : ∀ n, p.related = some n → r.Renders n
  enumName : ∀ n, p.enumName = some n → r.Renders n

namespace Typed

variable {cat : Catalog} {r r' : TypeRegistry} {types : List FieldType} {t : FieldType}
  {p q : Property}

theorem blank (field : Field) (inherited : Bool) : Typed cat r [] (blank field inherited) where
  union := rfl
  settled := nofun
  related := nofun
  enumName := nofun

theorem carry (h : Typed cat r types p) (hr : Carries r r') : Typed cat r' types p where
  union := by
    rw [h.union, List.flatMap_congr fun t ht => tokensOf_carry (h.settled t ht) hr]
  settled t ht c hc := (h.settled t ht c hc).carry hr
  related n hn := hr.renders (h.related n hn)
  enumName n hn := hr.renders (h.enumName n hn)

theorem offer (h : Typed cat r types p) (hq : Offered cat r t p q) :
    Typed cat r (types ++ [t]) q where
  union := by
    rw [hq.union, h.union, List.flatMap_append, List.flatMap_singleton]
    simp only [TypeUnion.ofTokens, TypeUnion.addAll, List.foldl_append]
  settled u hu c hc := by
    rcases List.mem_append.1 hu with hu | hu
    · exact h.settled u hu c hc
    · exact hq.settled c (List.mem_singleton.1 hu ▸ hc)
  related n hn := (hq.grounded.related n hn).elim (h.related n) id
  enumName n hn := (hq.grounded.enumName n hn).elim (h.enumName n) id

end Typed

theorem typed_of_buildProperty {cat : Catalog} {I : Draft → Prop}
    {visit : String → Drafting TypeEntry} {owner : TypeEntry} {field : Field} {file : String}
    {inherited : Bool} {s s' : Draft} {p : Property} (hI : ∀ s, I s → Described cat s.types)
    (hv : ∀ c, Finds cat (visit c) c) (hk : ∀ c, Alike I I (visit c) (visit c))
    (he : ∀ c file, cat.classify c = .enumeration →
      Alike I I (resolveEnum cat c file) (resolveEnum cat c file))
    (ho : owner.file = some file) (hf : Houses cat file) (hs : I s)
    (h : Yields (buildProperty cat visit owner field inherited) s p s') :
    Typed cat s'.types field.types p := by
  have htyped := (Yields.foldlM_pass h).prefix_invariant
    (I := fun before x => I x.2 ∧ Typed cat x.2.types before x.1)
    ⟨hs, .blank field inherited⟩ fun before t after x y _ hx hstep => by
      have hm := (hI x.2 hx.1).coherent
      have hI' : I y.2 := (alike_applyType x.1
        (fun c _ => ⟨fun _ => hk c, fun hc file => he c file hc⟩) x.2 hx.1).2 y.1 y.2 hstep
      obtain ⟨hextracted, -⟩ := formed_of_applyType hv ho hf hm hstep
      have hoffered := offered_of_applyType hv ho hf hm (hI y.2 hI') hstep
      exact ⟨hI', (hx.2.carry (.of_extends hextracted.kept)).offer hoffered⟩
  exact htyped.2

end Model
end HydraClient
