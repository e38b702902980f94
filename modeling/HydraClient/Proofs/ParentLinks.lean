import HydraClient.Proofs.Generation
import HydraClient.Proofs.Tracking

/-! # Parent links

A class below another one is offered on it under the property that its link names. The exposures of
a class that go under one symbol share a binding, and the binding has the links of the first of
them. So a link is kept just when the first exposure under its symbol has it, or another binding is
offered under the same property.
-/
namespace HydraClient

open Metadata TypeRegistry

theorem OrderedMap.isEmpty_insert {α β : Type} [DecidableEq α] (m : OrderedMap α β) (k : α)
    (v : β) : (m.insert k v).isEmpty = false := by
  rw [isEmpty, List.isEmpty_eq_false_iff]
  intro hnone
  have hk : (m.insert k v).get? k = some v := by rw [get?_insert, if_pos rfl]
  rw [get?, hnone] at hk
  cases hk

namespace Operations

def opener (className symbol : String) (es : List Exposure) : Option Exposure :=
  es.find? fun e => bindingSymbol className e == symbol

/-- The bindings of an entry once some exposures are looked at and some operations are taken up. -/
structure Outlined (className : String) (opened : List Exposure)
    (done : List (Exposure × Operation)) (x : EndpointEntry) : Prop where
  links : ∀ k, (x.bindings.get? k).map (·.links) =
    (opener className k opened).map (parentLinks className)
  exposed : ∀ {k b}, x.bindings.get? k = some b →
    (b.isExposed = true ↔ ∃ p ∈ done, bindingSymbol className p.1 = k)
  within : ∀ p ∈ done, p.1 ∈ opened

variable {className : String} {resource : TypeEntry} {e : Exposure} {o : Operation}
  {opened : List Exposure} {done : List (Exposure × Operation)} {x y : EndpointEntry}

namespace Outlined

theorem of_bindings (h : Outlined className opened done x) (hy : y.bindings = x.bindings) :
    Outlined className opened done y where
  links k := by rw [hy, h.links k]
  exposed hb := h.exposed (hy ▸ hb)
  within := h.within

theorem fresh (h : Outlined className opened done x) {k : String}
    (hk : x.bindings.get? k = none) : ∀ e ∈ opened, bindingSymbol className e ≠ k := by
  have hlinks := h.links k
  rw [hk, Option.map_none] at hlinks
  have hnone := Option.map_eq_none_iff.1 hlinks.symm
  rw [opener, List.find?_eq_none] at hnone
  exact fun e he => by simpa using hnone e he

theorem opener_append {k : String} : opener className k (opened ++ [e]) =
    (opener className k opened).or (if bindingSymbol className e = k then some e else none) := by
  rw [opener, List.find?_append]
  by_cases hk : bindingSymbol className e = k <;> simp [hk, opener]

theorem open_exposure (h : Outlined className opened done x) (e : Exposure) (resource : TypeEntry) :
    Outlined className (opened ++ [e]) done (withBinding className resource e x) := by
  unfold withBinding
  split
  · rename_i hcontains
    obtain ⟨b, hb⟩ := OrderedMap.contains_iff_get?.1 hcontains
    refine ⟨fun k => ?_, h.exposed, fun p hp => List.mem_append_left _ (h.within p hp)⟩
    rw [h.links k, opener_append]
    cases hk : opener className k opened with
    | some first => rfl
    | none =>
      -- The binding is there, so an exposure has made it before.
      have hlinks := h.links k
      rw [hk, Option.map_none] at hlinks
      have hne : bindingSymbol className e ≠ k := by
        rintro rfl
        rw [hb] at hlinks
        cases hlinks
      rw [if_neg hne]
      rfl
  · rename_i hnew
    have hnone : x.bindings.get? (bindingSymbol className e) = none := by
      rw [OrderedMap.get?_eq_none_iff, ← OrderedMap.contains_iff]
      exact hnew
    have hfresh := h.fresh hnone
    refine ⟨fun k => ?_, fun {k b} hb => ?_, fun p hp => List.mem_append_left _ (h.within p hp)⟩
    · rw [OrderedMap.get?_insert, opener_append]
      by_cases hk : k = bindingSymbol className e
      · have hopener : opener className k opened = none :=
          List.find?_eq_none.2 fun e' he' => by simpa [hk] using hfresh e' he'
        rw [if_pos hk, hopener, if_pos hk.symm]
        rfl
      · rw [if_neg hk, if_neg (Ne.symm hk), Option.or_none]
        exact h.links k
    · rw [OrderedMap.get?_insert] at hb
      split at hb
      · rename_i hk
        obtain rfl := Option.some.inj hb
        constructor
        · intro hexposed
          cases hexposed
        · rintro ⟨p, hp, hp'⟩
          exact absurd (hp'.trans hk) (hfresh p.1 (h.within p hp))
      · exact h.exposed hb

theorem call (h : Outlined className opened done x) (he : e ∈ opened) (c : Call) :
    Outlined className opened (done ++ [(e, o)]) (withCall (bindingSymbol className e) c x) where
  links k := by
    rw [withCall, OrderedMap.get?_modify]
    split
    · rw [Option.map_map]
      exact h.links k
    · exact h.links k
  exposed {k b} hb := by
    rw [withCall, OrderedMap.get?_modify] at hb
    split at hb
    · rename_i hk
      obtain ⟨b', -, rfl⟩ := Option.map_eq_some_iff.1 hb
      refine iff_of_true ?_ ⟨(e, o), by simp, hk.symm⟩
      rw [Binding.isExposed, OrderedMap.isEmpty_insert]
      rfl
    · rename_i hk
      rw [h.exposed hb]
      constructor
      · rintro ⟨p, hp, hp'⟩
        exact ⟨p, List.mem_append_left _ hp, hp'⟩
      · rintro ⟨p, hp, hp'⟩
        rcases List.mem_append.1 hp with hp | hp
        · exact ⟨p, hp, hp'⟩
        · obtain rfl := List.mem_singleton.1 hp
          exact absurd hp'.symm hk
  within p hp := by
    rcases List.mem_append.1 hp with hp | hp
    · exact h.within p hp
    · obtain rfl := List.mem_singleton.1 hp
      exact he

end Outlined

theorem outlined_newEntry : Outlined className [] [] (newEntry className resource) where
  links _ := rfl
  exposed hb := by cases hb
  within _ h := by cases h

theorem tracks_outlined : Tracks Outlined where
  start _ _ := outlined_newEntry
  bindings h hy := h.of_bindings hy
  opening resource e h := h.open_exposure e resource
  call {_ _ _ _ _ _ _ c} h he _ _ := h.call he c

end Operations

namespace Linking

variable {r : OperationRegistry} {e : EndpointEntry} {b : Binding} {o : Offer} {a p k : String}

/-- The binding that takes up what is offered to a class: the first one with a call. -/
def receiver? (r : OperationRegistry) (className : String) : Option Binding :=
  (r.get? className).bind fun e => e.exposedKey.bind e.bindings.get?

def meant (className key : String) (o : Offer) : Bool := o.parent == className && o.key == key

theorem exists_exposedKey (hb : e.bindings.get? k = some b) (hexposed : b.isExposed = true) :
    ∃ k', e.exposedKey = some k' := by
  rw [← Option.isSome_iff_exists, EndpointEntry.exposedKey, Option.isSome_map,
    List.find?_isSome]
  exact ⟨(k, b), OrderedMap.mem_entries_iff.2 hb, hexposed⟩

theorem receiver?_eq_some (he : r.get? a = some e) (hk : e.exposedKey = some k)
    (hb : e.bindings.get? k = some b) : receiver? r a = some b := by
  rw [receiver?, he, Option.bind_some, hk, Option.bind_some, hb]

theorem receiver?_accept (h : receiver? r a = some b) : ∃ b', receiver? (accept r o).1 a = some b' ∧
    ∀ p, b'.children.get? p =
      (b.children.get? p).or (if meant a p o then some o.child else none) := by
  obtain ⟨e, he, h⟩ := Option.bind_eq_some_iff.1 h
  obtain ⟨k, hk, hb⟩ := Option.bind_eq_some_iff.1 h
  rcases accept_cases r o with ⟨hr, hspent⟩ |
    ⟨target, b', symbol, htarget, hsymbol, hb', hfree, hr⟩ <;> rw [hr]
  · refine ⟨b, receiver?_eq_some he hk hb, fun p => ?_⟩
    split
    · rename_i hmeant
      simp only [meant, Bool.and_eq_true, beq_iff_eq] at hmeant
      obtain ⟨rfl, rfl⟩ := hmeant
      obtain ⟨child, hchild⟩ := hspent e b k he hk hb
      rw [hchild]
      rfl
    · rw [Option.or_none]
  · by_cases ha : o.parent = a
    · subst ha
      obtain rfl := Option.some.inj (he.symm.trans htarget)
      obtain rfl := Option.some.inj (hk.symm.trans hsymbol)
      obtain rfl := Option.some.inj (hb.symm.trans hb')
      have hmeant : ∀ p, meant o.parent p o = (o.key == p) := fun p => by simp [meant]
      refine ⟨{ b with children := b.children.insert o.key o.child }, ?_, fun p => ?_⟩
      · refine receiver?_eq_some (by rw [OrderedMap.get?_insert, if_pos rfl])
          (exposedKey_withChild.trans hk) ?_
        rw [withChild, OrderedMap.get?_modify, if_pos rfl, hb, Option.map_some]
      · rw [OrderedMap.get?_insert, hmeant]
        by_cases hp : p = o.key
        · simp [hp, hfree]
        · simp [hp, Ne.symm hp]
    · have hother : (r.insert o.parent (withChild o symbol target)).get? a = some e := by
        rw [OrderedMap.get?_insert, if_neg (Ne.symm ha), he]
      refine ⟨b, receiver?_eq_some hother hk hb, fun p => ?_⟩
      simp [meant, ha]

/-- Of the offers that are meant for one key of a class the first one is taken up. -/
theorem receiver?_foldl (l : List Offer) (h : receiver? r a = some b) :
    ∃ b', receiver? (l.foldl (fun r o => (accept r o).1) r) a = some b' ∧
      ∀ p, b'.children.get? p =
        (b.children.get? p).or ((l.find? (meant a p)).map (·.child)) := by
  induction l generalizing r b with
  | nil => exact ⟨b, h, fun p => by simp⟩
  | cons o rest ih =>
    obtain ⟨m, hm, hchildren⟩ := receiver?_accept (o := o) h
    obtain ⟨b', hb', hrest⟩ := ih hm
    refine ⟨b', hb', fun p => ?_⟩
    rw [hrest, hchildren, List.find?_cons, Option.or_assoc]
    cases meant a p o <;> rfl

theorem link_eq_foldl (r : OperationRegistry) :
    (link r).1 = (offers r).foldl (fun r o => (accept r o).1) r :=
  (List.foldl_hom Prod.fst fun _ _ => rfl).symm

structure LeadsTo (u : UriVariable) (className key : String) : Prop where
  fromClass : u.fromClass.map ClassName.relative = some className
  fromProperty : u.fromProperty = some key
  named : u.fromClass ≠ some ""
  keyed : key ≠ ""

theorem mem_offersOf_iff : o ∈ offersOf e b ↔ b.isExposed = true ∧ o.file = e.file ∧
    o.child = ⟨e.source, b.symbol⟩ ∧ ∃ u ∈ b.links, LeadsTo u o.parent o.key := by
  unfold offersOf
  split
  · rename_i hhidden
    have hhidden : b.isExposed = false := by simpa using hhidden
    simp [hhidden]
  · rename_i hexposed
    have hexposed : b.isExposed = true := by simpa using hexposed
    rw [List.mem_filterMap]
    constructor
    · rintro ⟨u, hu, hoffer⟩
      split at hoffer
      · rename_i c p hc hp
        split at hoffer
        · cases hoffer
        · rename_i hnamed
          obtain rfl := Option.some.inj hoffer
          simp only [Bool.or_eq_true, decide_eq_true_eq, not_or] at hnamed
          refine ⟨hexposed, rfl, rfl, u, hu, by rw [hc]; rfl, hp, ?_, hnamed.2⟩
          rw [hc]
          exact fun h => hnamed.1 (Option.some.inj h)
      · cases hoffer
    · rintro ⟨-, hfile, hchild, u, hu, hto⟩
      refine ⟨u, hu, ?_⟩
      obtain ⟨c, hc, hparent⟩ := Option.map_eq_some_iff.1 hto.fromClass
      have hne : c ≠ "" := fun h => hto.named (hc.trans (congrArg some h))
      obtain ⟨parent, key, child, file⟩ := o
      simp only at hparent hfile hchild
      simp only [hc, hto.fromProperty, hne, hto.keyed, decide_false, Bool.or_self,
        Bool.false_eq_true, if_false, hparent, hfile, hchild]

end Linking

/-- A class is offered on another one under a key: one of its exposures has an exposed operation,
and the first exposure under the symbol of that one links to the other class. -/
inductive OfferedOn (cat : Catalog) (className key : String) : ChildEndpoint → Prop where
  | intro {child : String} {shape : ClassDecl} {e first : Exposure} {u : UriVariable} :
      ServedClass cat child shape → e ∈ shape.exposures → (∃ o ∈ e.operations, o.exposed = true) →
      Operations.opener child (Operations.bindingSymbol child e) shape.exposures = some first →
      u ∈ Operations.parentLinks child first → Linking.LeadsTo u className key →
      OfferedOn cat className key ⟨child, Operations.bindingSymbol child e⟩

namespace Operations

variable {cat : Catalog} {disk : Disk} {seeded modeled served d : Draft} {className : String}
  {shape : ClassDecl} {x : EndpointEntry}

theorem mem_declared_iff {es : List Exposure} {p : Exposure × Operation} :
    p ∈ declared es ↔ p.1 ∈ es ∧ p.2 ∈ p.1.operations ∧ p.2.exposed = true := by
  obtain ⟨e, o⟩ := p
  simp only [declared, List.mem_flatMap, List.mem_map, List.mem_filter, Prod.mk.injEq]
  constructor
  · rintro ⟨e', he, o', ⟨ho, hexposed⟩, rfl, rfl⟩
    exact ⟨he, ho, hexposed⟩
  · rintro ⟨he, ho, hexposed⟩
    exact ⟨e, he, o, ⟨ho, hexposed⟩, rfl, rfl⟩

theorem outlined_of_served (hp : Phased cat disk seeded modeled served d)
    (hc : ServedClass cat className shape) :
    InEntry (Outlined className shape.exposures (declared shape.exposures)) served className :=
  tracks_outlined.of_served hp hc

theorem served_of_entry (hp : Phased cat disk seeded modeled served d)
    (hx : served.operations.get? className = some x) : ∃ shape, ServedClass cat className shape ∧
      x.source = className ∧ (∀ {k b}, x.bindings.get? k = some b → b.symbol = k) ∧
      Outlined className shape.exposures (declared shape.exposures) x := by
  obtain ⟨hmem, shape, resource, hserved⟩ := hp.bound.entries hx
  obtain ⟨hresource, hin⟩ := List.mem_filter.1 hmem
  have hclass : ServedClass cat className shape := ⟨hresource, hin, hserved.described⟩
  obtain ⟨y, hy, houtlined⟩ := outlined_of_served hp hclass
  obtain rfl := Option.some.inj (hx.symm.trans hy)
  exact ⟨shape, hclass, hserved.holds.source, fun hb => (hserved.holds.bindings hb).1, houtlined⟩

/-- The offers to a class are made by the bindings with a call, with the links of their first
exposures. -/
theorem offered_iff (hp : Phased cat disk seeded modeled served d) {key : String}
    {child : ChildEndpoint} : (∃ o ∈ Linking.offers served.operations,
      Linking.meant className key o = true ∧ o.child = child) ↔
        OfferedOn cat className key child := by
  constructor
  · rintro ⟨o, ho, hmeant, rfl⟩
    obtain ⟨x, hx, ho⟩ := List.mem_flatMap.1 ho
    obtain ⟨b, hb, ho⟩ := List.mem_flatMap.1 ho
    obtain ⟨c, hx⟩ := OrderedMap.mem_values_iff.1 hx
    obtain ⟨k, hb⟩ := OrderedMap.mem_values_iff.1 hb
    obtain ⟨hexposed, -, hchild, u, hu, hto⟩ := Linking.mem_offersOf_iff.1 ho
    obtain ⟨shape, hclass, hsource, hsymbols, houtlined⟩ := served_of_entry hp hx
    simp only [Linking.meant, Bool.and_eq_true, beq_iff_eq] at hmeant
    obtain ⟨⟨e, o'⟩, hmem, hsymbol⟩ := (houtlined.exposed hb).1 hexposed
    obtain ⟨he, ho', hexposed'⟩ := mem_declared_iff.1 hmem
    have hlinks := houtlined.links k
    rw [hb, Option.map_some] at hlinks
    obtain ⟨first, hfirst, heq⟩ := Option.map_eq_some_iff.1 hlinks.symm
    have hsymbol : bindingSymbol c e = k := hsymbol
    rw [hchild, hsource, hsymbols hb, ← hsymbol]
    rw [← hmeant.1, ← hmeant.2]
    exact .intro hclass he ⟨o', ho', hexposed'⟩ (hsymbol ▸ hfirst) (heq ▸ hu) hto
  · rintro @⟨c, shape, e, first, u, hclass, he, ⟨o', ho', hexposed⟩, hfirst, hu, hto⟩
    obtain ⟨x, hx, houtlined⟩ := outlined_of_served hp hclass
    obtain ⟨-, -, hsource, hsymbols, -⟩ := served_of_entry hp hx
    have hlinks := houtlined.links (bindingSymbol c e)
    rw [hfirst, Option.map_some] at hlinks
    obtain ⟨b, hb, hblinks⟩ := Option.map_eq_some_iff.1 hlinks
    have hcalls : b.isExposed = true :=
      (houtlined.exposed hb).2 ⟨(e, o'), mem_declared_iff.2 ⟨he, ho', hexposed⟩, rfl⟩
    have hoffer : (⟨className, key, ⟨x.source, b.symbol⟩, x.file⟩ : Linking.Offer) ∈
        Linking.offersOf x b :=
      Linking.mem_offersOf_iff.2 ⟨hcalls, rfl, rfl, u, hblinks ▸ hu, hto⟩
    refine ⟨_, List.mem_flatMap.2 ⟨x, OrderedMap.mem_values_iff.2 ⟨_, hx⟩,
      List.mem_flatMap.2 ⟨b, OrderedMap.mem_values_iff.2 ⟨_, hb⟩, hoffer⟩⟩, ?_, ?_⟩
    · simp [Linking.meant]
    · rw [hsource, hsymbols hb]

theorem exists_receiver (hp : Phased cat disk seeded modeled served d)
    (hc : ServedClass cat className shape) {e : Exposure} (he : e ∈ shape.exposures)
    {o : Operation} (ho : o ∈ e.operations) (hexposed : o.exposed = true) : ∃ b,
      Linking.receiver? served.operations className = some b ∧ b.children = .empty := by
  obtain ⟨x, hx, houtlined⟩ := outlined_of_served hp hc
  have hopener : (opener className (bindingSymbol className e) shape.exposures).isSome := by
    rw [opener, List.find?_isSome]
    exact ⟨e, he, by simp⟩
  obtain ⟨first, hfirst⟩ := Option.isSome_iff_exists.1 hopener
  have hlinks := houtlined.links (bindingSymbol className e)
  rw [hfirst, Option.map_some] at hlinks
  obtain ⟨b, hb, -⟩ := Option.map_eq_some_iff.1 hlinks
  obtain ⟨k, hk⟩ := Linking.exists_exposedKey hb
    ((houtlined.exposed hb).2 ⟨(e, o), mem_declared_iff.2 ⟨he, ho, hexposed⟩, rfl⟩)
  obtain ⟨b', hb', -⟩ := EndpointEntry.binding_of_exposedKey hk
  obtain ⟨-, shape', resource, hserved⟩ := hp.bound.entries hx
  exact ⟨b', Linking.receiver?_eq_some hx hk hb', hserved.holds.childless hb'⟩

end Operations

/-- The children of a class with an exposed operation: a key has a child just when some exposure is
offered under it, and the child is that of such an exposure. A link that only a later exposure under
its symbol declares is offered to nobody. -/
theorem children_offered {doc : Document} {disk : Disk} {d : Draft} {className : String}
    {shape : ClassDecl} (h : Generates doc disk d)
    (hc : ServedClass (.ofDocument doc) className shape)
    (hserves : ∃ e ∈ shape.exposures, ∃ o ∈ e.operations, o.exposed = true) :
    ∃ b, Linking.receiver? d.operations className = some b ∧ ∀ key,
      (b.children.contains key = true ↔ ∃ child, OfferedOn (.ofDocument doc) className key child) ∧
      ∀ child, b.children.get? key = some child →
        OfferedOn (.ofDocument doc) className key child := by
  obtain ⟨seeded, modeled, served, hp, hr⟩ := h.rendered
  obtain ⟨e, he, o, ho, hexposed⟩ := hserves
  obtain ⟨b₀, hb₀, hchildless⟩ := Operations.exists_receiver hp hc he ho hexposed
  obtain ⟨b, hb, hchildren⟩ :=
    Linking.receiver?_foldl (Linking.offers served.operations) hb₀
  have hlinked : d.operations = (Linking.offers served.operations).foldl
      (fun r o => (Linking.accept r o).1) served.operations := by
    rw [hr.operations, hp.helpers.operations]
    exact Linking.link_eq_foldl served.operations
  refine ⟨b, hlinked ▸ hb, fun key => ?_⟩
  have hget : b.children.get? key = ((Linking.offers served.operations).find?
      (Linking.meant className key)).map (·.child) := by
    rw [hchildren, hchildless, OrderedMap.get?_empty, Option.none_or]
  have hsound : ∀ child, b.children.get? key = some child →
      OfferedOn (.ofDocument doc) className key child := by
    intro child hchild
    rw [hget] at hchild
    obtain ⟨offer, hfind, hchild⟩ := Option.map_eq_some_iff.1 hchild
    exact (Operations.offered_iff hp).1
      ⟨offer, List.mem_of_find?_eq_some hfind, List.find?_some hfind, hchild⟩
  refine ⟨⟨fun hcontains => ?_, ?_⟩, hsound⟩
  · obtain ⟨child, hchild⟩ := OrderedMap.contains_iff_get?.1 hcontains
    exact ⟨child, hsound child hchild⟩
  · rintro ⟨child, hoffered⟩
    obtain ⟨offer, hmem, hmeant, -⟩ := (Operations.offered_iff hp).2 hoffered
    have hfind : ((Linking.offers served.operations).find?
        (Linking.meant className key)).isSome := List.find?_isSome.2 ⟨offer, hmem, hmeant⟩
    obtain ⟨first, hfirst⟩ := Option.isSome_iff_exists.1 hfind
    refine OrderedMap.contains_iff_get?.2 ⟨first.child, ?_⟩
    rw [hget, hfirst, Option.map_some]

/-- Two lists of comments of a post, under two of its properties. -/
def threadDecl : ClassDecl where
  className := "App\\Entity\\Comment"
  exposures := [{
      shortName := "Comment"
      uriVariables := [{
        parameter := "postId"
        fromClass := some "App\\Entity\\Post"
        fromProperty := some "comments" }]
      operations := [{ type := some "GetCollection" }] }, {
      shortName := "Comment"
      uriVariables := [{
        parameter := "postId"
        fromClass := some "App\\Entity\\Post"
        fromProperty := some "replies" }]
      operations := [{ type := some "Post" }] }]

def threadedDecl : ClassDecl where
  className := "App\\Entity\\Post"
  exposures := [{ shortName := "Post", operations := [{ type := some "Get" }] }]

def thread : Document where
  classes := [threadedDecl, threadDecl]

theorem servedClass_threaded : ServedClass (.ofDocument thread) threadedDecl.className
    threadedDecl :=
  ⟨by decide +kernel, by decide +kernel, rfl⟩

theorem servedClass_thread : ServedClass (.ofDocument thread) threadDecl.className threadDecl :=
  ⟨by decide +kernel, by decide +kernel, rfl⟩

theorem exists_generates_thread : ∃ d, Generates thread {} d ∧
    d.operations = (extraction (.ofDocument thread) {}).operations := by
  have hgenerated : thread.isGenerated = true := by decide +kernel
  obtain ⟨d, hd, -⟩ := exists_generates_of_isGenerated hgenerated
  obtain ⟨_, _, _, -, hr⟩ := hd.rendered
  exact ⟨d, hd, hr.operations⟩

theorem thread_children_offered : ∃ d, Generates thread {} d ∧
    ServedClass (.ofDocument thread) threadedDecl.className threadedDecl ∧
    (∃ e ∈ threadedDecl.exposures, ∃ o ∈ e.operations, o.exposed = true) ∧
    ∃ b, Linking.receiver? d.operations threadedDecl.className = some b ∧ ∀ key,
      (b.children.contains key = true ↔
        ∃ child, OfferedOn (.ofDocument thread) threadedDecl.className key child) ∧
      ∀ child, b.children.get? key = some child →
        OfferedOn (.ofDocument thread) threadedDecl.className key child := by
  obtain ⟨d, hd, -⟩ := exists_generates_thread
  have hserves : ∃ e ∈ threadedDecl.exposures, ∃ o ∈ e.operations, o.exposed = true := by decide
  exact ⟨d, hd, servedClass_threaded, hserves, children_offered hd servedClass_threaded hserves⟩

/-- The second list goes under the symbol of the first one, and its link is gone. -/
theorem replies_link_lost : ∃ d, Generates thread {} d ∧
    ServedClass (.ofDocument thread) threadedDecl.className threadedDecl ∧
    (∃ e ∈ threadedDecl.exposures, ∃ o ∈ e.operations, o.exposed = true) ∧
    ServedClass (.ofDocument thread) threadDecl.className threadDecl ∧
    (∃ e ∈ threadDecl.exposures, (∃ o ∈ e.operations, o.exposed = true) ∧
      ∃ u ∈ e.uriVariables, u.fromClass = some threadedDecl.className ∧
        u.fromProperty = some "replies") ∧
    ∃ b, Linking.receiver? d.operations threadedDecl.className = some b ∧
      b.children.keys = ["comments"] := by
  obtain ⟨d, hd, hoperations⟩ := exists_generates_thread
  have hkeys : (Linking.receiver? (extraction (.ofDocument thread) {}).operations
      threadedDecl.className).map (·.children.keys) = some ["comments"] := by decide +kernel
  rw [← hoperations] at hkeys
  obtain ⟨b, hb, hchildren⟩ := Option.map_eq_some_iff.1 hkeys
  exact ⟨d, hd, servedClass_threaded, by decide, servedClass_thread, by decide, b, hb, hchildren⟩

end HydraClient
