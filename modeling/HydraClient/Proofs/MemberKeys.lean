import HydraClient.Proofs.ParentLinks
import Mathlib.Data.List.Find

/-! # Keys of binding objects

The object of a binding has its calls and then its children for members. Calls go under names that
the class itself gives, children under names that other classes give, and each kind is kept from
repeating a name of its own. Between the two kinds nothing is: a child may go under the name of a
call. Only the first binding of a class with a call has children at all.
-/
namespace HydraClient

open Metadata TypeRegistry

theorem OrderedMap.mem_keys_insert {α β : Type} [DecidableEq α] {m : OrderedMap α β} {k k' : α}
    {v : β} : k ∈ (m.insert k' v).keys ↔ k = k' ∨ k ∈ m.keys := by
  rw [keys_insert]
  split
  · rename_i h
    constructor
    · exact .inr
    · rintro (rfl | hk)
      · exact h
      · exact hk
  · rw [List.mem_append, List.mem_singleton, or_comm]

/-- The keys of the object of a binding, in the order in which they are written. -/
def Binding.memberKeys (b : Binding) : List String := b.calls.keys ++ b.children.keys

theorem Binding.nodup_memberKeys_iff {b : Binding} :
    b.memberKeys.Nodup ↔ ∀ name ∈ b.calls.keys, name ∉ b.children.keys := by
  rw [memberKeys, List.nodup_append]
  constructor
  · intro h name hcall hchild
    exact h.2.2 name hcall name hchild rfl
  · intro h
    refine ⟨b.calls.distinct, b.children.distinct, ?_⟩
    rintro name hcall _ hchild rfl
    exact h name hcall hchild

namespace Operations

def CalledUnder (className : String) (done : List (Exposure × Operation)) (symbol name : String) :
    Prop :=
  ∃ p ∈ done, goesTo className symbol name p = true

/-- The symbol of the binding that takes up what is offered to a class: that of its first exposure
whose symbol has an exposed operation, be it in another exposure. -/
def receiving? (className : String) (es : List Exposure) : Option String :=
  (es.map (bindingSymbol className)).find? fun symbol =>
    (declared es).any fun p => bindingSymbol className p.1 == symbol

structure Keyed (className : String) (opened : List Exposure) (done : List (Exposure × Operation))
    (x : EndpointEntry) : Prop where
  order : ∀ p : String → Bool,
    x.bindings.keys.find? p = (opened.map (bindingSymbol className)).find? p
  called : ∀ {k b}, x.bindings.get? k = some b →
    ∀ n, n ∈ b.calls.keys ↔ CalledUnder className done k n
  within : ∀ p ∈ done, p.1 ∈ opened

namespace Keyed

variable {className k n : String} {opened : List Exposure} {done : List (Exposure × Operation)}
  {x y : EndpointEntry} {e : Exposure} {o : Operation} {kind : OperationKind} {c : Call}

theorem of_bindings (h : Keyed className opened done x) (hy : y.bindings = x.bindings) :
    Keyed className opened done y where
  order p := by rw [hy, h.order]
  called hb := h.called (hy ▸ hb)
  within := h.within

theorem goesTo_symbol {p : Exposure × Operation} (h : goesTo className k n p = true) :
    bindingSymbol className p.1 = k := by
  rw [goesTo, Bool.and_eq_true, beq_iff_eq] at h
  exact h.1

theorem fresh (h : Keyed className opened done x) (hk : k ∉ x.bindings.keys) :
    ¬CalledUnder className done k n := by
  rintro ⟨p, hp, hgoes⟩
  have hnone : x.bindings.keys.find? (· == k) = none := by
    rw [List.find?_eq_none]
    intro k' hk' he
    exact hk (by simpa using beq_iff_eq.1 he ▸ hk')
  rw [h.order, List.find?_eq_none] at hnone
  have hsymbol := goesTo_symbol hgoes
  exact hnone _ (List.mem_map_of_mem (h.within p hp)) (by simp [hsymbol])

theorem of_withBinding (h : Keyed className opened done x) (resource : TypeEntry) (e : Exposure) :
    Keyed className (opened ++ [e]) done (withBinding className resource e x) := by
  have hfind : ∀ p : String → Bool, ((opened ++ [e]).map (bindingSymbol className)).find? p =
      (x.bindings.keys.find? p).or ([bindingSymbol className e].find? p) := fun p => by
    rw [List.map_append, List.find?_append, h.order]
    rfl
  have hwithin : ∀ p ∈ done, p.1 ∈ opened ++ [e] :=
    fun p hp => List.mem_append_left _ (h.within p hp)
  unfold withBinding
  split
  · rename_i hcontains
    refine ⟨fun p => ?_, h.called, hwithin⟩
    rw [hfind]
    cases hp : x.bindings.keys.find? p with
    | some k => rfl
    | none =>
      -- The symbol is among the keys, so it does not pass the test either.
      have hfails := List.find?_eq_none.1 hp _ (OrderedMap.contains_iff.1 hcontains)
      simp [hfails]
  · rename_i hnew
    have hfree : bindingSymbol className e ∉ x.bindings.keys := by
      rwa [← OrderedMap.contains_iff]
    refine ⟨fun p => ?_, fun {k b} hb n => ?_, hwithin⟩
    · rw [hfind, OrderedMap.keys_insert, if_neg hfree, List.find?_append]
    · rw [OrderedMap.get?_insert] at hb
      split at hb
      · rename_i hk
        obtain rfl := Option.some.inj hb
        exact iff_of_false List.not_mem_nil (h.fresh (hk ▸ hfree))
      · exact h.called hb n

theorem of_withCall (h : Keyed className opened done x) (he : e ∈ opened)
    (hkind : kind? o = some kind)
    (hname : c.name = OperationKind.nameOf o kind) :
    Keyed className opened (done ++ [(e, o)]) (withCall (bindingSymbol className e) c x) := by
  have hgoes : ∀ {k n}, CalledUnder className (done ++ [(e, o)]) k n ↔
      CalledUnder className done k n ∨ bindingSymbol className e = k ∧ c.name = n := by
    intro k n
    have hlast : goesTo className k n (e, o) = true ↔
        bindingSymbol className e = k ∧ c.name = n := by
      simp [goesTo, hkind, hname]
    simp only [CalledUnder, List.mem_append, List.mem_singleton, or_and_right, exists_or,
      exists_eq_left, hlast]
  refine ⟨fun p => ?_, fun {k b} hb n => ?_, fun p hp => ?_⟩
  · rw [withCall, OrderedMap.keys_modify, h.order]
  · rw [hgoes]
    rw [withCall, OrderedMap.get?_modify] at hb
    split at hb
    · rename_i hk
      obtain ⟨b', hb', rfl⟩ := Option.map_eq_some_iff.1 hb
      rw [← h.called hb' n, OrderedMap.mem_keys_insert, and_iff_right hk.symm, or_comm, eq_comm]
    · rename_i hk
      rw [h.called hb n, or_iff_left]
      exact fun hsame => hk hsame.1.symm
  · rcases List.mem_append.1 hp with hp | hp
    · exact h.within p hp
    · obtain rfl := List.mem_singleton.1 hp
      exact he

end Keyed

theorem keyed_newEntry {className : String} {resource : TypeEntry} :
    Keyed className [] [] (newEntry className resource) where
  order _ := rfl
  called hb := by cases hb
  within _ h := by cases h

theorem tracks_keyed : Tracks Keyed where
  start _ _ := keyed_newEntry
  bindings h hy := h.of_bindings hy
  opening resource e h := h.of_withBinding resource e
  call h he hkind hname := h.of_withCall he hkind hname

theorem exposedKey_eq {className : String} {es : List Exposure} {x : EndpointEntry}
    (hkeyed : Keyed className es (declared es) x)
    (houtlined : Outlined className es (declared es) x) :
    x.exposedKey = receiving? className es := by
  rw [receiving?, ← hkeyed.order, EndpointEntry.exposedKey, OrderedMap.keys, List.find?_map]
  congr 1
  refine List.find?_congr fun entry hmem => ?_
  obtain ⟨k, b⟩ := entry
  have hexposed := houtlined.exposed (OrderedMap.mem_entries_iff.1 hmem)
  rw [Bool.eq_iff_iff, hexposed]
  simp [List.any_eq_true]

end Operations

namespace Linking

variable {r : OperationRegistry} {x : EndpointEntry} {o : Offer} {c k : String}

def OthersKept (r r' : OperationRegistry) : Prop :=
  ∀ {c x}, r'.get? c = some x → ∃ y, r.get? c = some y ∧ x.exposedKey = y.exposedKey ∧
    ∀ k, y.exposedKey ≠ some k → x.bindings.get? k = y.bindings.get? k

theorem OthersKept.trans {r r' r'' : OperationRegistry} (h : OthersKept r r')
    (h' : OthersKept r' r'') : OthersKept r r'' := by
  intro c x hx
  obtain ⟨y, hy, hkey, hrest⟩ := h' hx
  obtain ⟨z, hz, hkey', hrest'⟩ := h hy
  refine ⟨z, hz, hkey.trans hkey', fun k hk => ?_⟩
  rw [hrest k (hkey' ▸ hk), hrest' k hk]

theorem othersKept_accept (r : OperationRegistry) (o : Offer) : OthersKept r (accept r o).1 := by
  intro c x hx
  rcases accept_cases r o with ⟨hr, -⟩ | ⟨target, b, symbol, htarget, hsymbol, -, -, hr⟩ <;>
    rw [hr] at hx
  · exact ⟨x, hx, rfl, fun _ _ => rfl⟩
  · rw [OrderedMap.get?_insert] at hx
    split at hx
    · rename_i hc
      obtain rfl := Option.some.inj hx
      refine ⟨target, hc ▸ htarget, exposedKey_withChild, fun k hk => ?_⟩
      have hne : k ≠ symbol := fun he => hk (he ▸ hsymbol)
      rw [withChild, OrderedMap.get?_modify, if_neg hne]
    · exact ⟨x, hx, rfl, fun _ _ => rfl⟩

theorem othersKept_link (r : OperationRegistry) : OthersKept r (link r).1 := by
  rw [link_eq_foldl]
  refine List.foldlRecOn (offers r) _ (motive := OthersKept r)
    (fun hx => ⟨_, hx, rfl, fun _ _ => rfl⟩) ?_
  intro r' hr' o _
  exact hr'.trans (othersKept_accept r' o)

end Linking

namespace Operations

variable {cat : Catalog} {disk : Disk} {seeded modeled served d : Draft} {className k : String}
  {shape : ClassDecl} {x y : EndpointEntry} {b : Binding}

/-- The children of the binding that takes up offers are what is offered on its class. -/
theorem mem_children_iff (hp : Phased cat disk seeded modeled served d)
    (hb : Linking.receiver? served.operations className = some b) (hchildless : b.children = .empty)
    {b' : Binding} (hb' : Linking.receiver? d.operations className = some b') (key : String) :
    key ∈ b'.children.keys ↔ ∃ child, OfferedOn cat className key child := by
  obtain ⟨b'', hb'', hchildren⟩ :=
    Linking.receiver?_foldl (Linking.offers served.operations) hb
  rw [hp.helpers.operations, Linking.link_eq_foldl, hb''] at hb'
  obtain rfl := Option.some.inj hb'
  rw [OrderedMap.mem_keys_iff, hchildren, hchildless, OrderedMap.get?_empty, Option.none_or]
  constructor
  · rintro ⟨child, hchild⟩
    obtain ⟨offer, hfind, -⟩ := Option.map_eq_some_iff.1 hchild
    exact ⟨offer.child, (offered_iff hp).1
      ⟨offer, List.mem_of_find?_eq_some hfind, List.find?_some hfind, rfl⟩⟩
  · rintro ⟨child, hoffered⟩
    obtain ⟨offer, hmem, hmeant, -⟩ := (offered_iff hp).2 hoffered
    have hfind : ((Linking.offers served.operations).find?
        (Linking.meant className key)).isSome := List.find?_isSome.2 ⟨offer, hmem, hmeant⟩
    obtain ⟨first, hfirst⟩ := Option.isSome_iff_exists.1 hfind
    exact ⟨first.child, by rw [hfirst, Option.map_some]⟩

theorem mem_children_of_binding (hp : Phased cat disk seeded modeled served d)
    (hc : ServedClass cat className shape) (hx : d.operations.get? className = some x)
    (hb : x.bindings.get? k = some b) (key : String) :
    key ∈ b.children.keys ↔ receiving? className shape.exposures = some k ∧
      ∃ child, OfferedOn cat className key child := by
  have hkept : Linking.OthersKept served.operations d.operations := by
    rw [hp.helpers.operations]
    exact Linking.othersKept_link served.operations
  obtain ⟨y, hy, hkey, hothers⟩ := hkept hx
  obtain ⟨x₁, hx₁, houtlined⟩ := tracks_outlined.of_served hp hc
  obtain rfl := Option.some.inj (hy.symm.trans hx₁)
  obtain ⟨x₂, hx₂, hkeyed⟩ := tracks_keyed.of_served hp hc
  obtain rfl := Option.some.inj (hy.symm.trans hx₂)
  obtain ⟨-, _, _, hserved⟩ := hp.bound.entries hy
  have hreceiving := exposedKey_eq hkeyed houtlined
  by_cases hk : y.exposedKey = some k
  · obtain ⟨b₀, hb₀, -⟩ := EndpointEntry.binding_of_exposedKey hk
    rw [← hreceiving, and_iff_right hk]
    exact mem_children_iff hp (Linking.receiver?_eq_some hy hk hb₀)
      (hserved.holds.childless hb₀) (Linking.receiver?_eq_some hx (hkey.trans hk) hb) key
  · rw [hothers k hk] at hb
    rw [hserved.holds.childless hb, ← hreceiving]
    exact iff_of_false List.not_mem_nil fun h => hk h.1

theorem mem_calls_of_binding (hp : Phased cat disk seeded modeled served d)
    (hc : ServedClass cat className shape) (hx : d.operations.get? className = some x)
    (hb : x.bindings.get? k = some b) (name : String) :
    name ∈ b.calls.keys ↔ CalledUnder className (declared shape.exposures) k name := by
  obtain ⟨y, hy, hcore⟩ := hp.linked.entry hx
  obtain ⟨b', hb', hcalls⟩ := EndpointEntry.binding_of_core hcore.symm hb
  obtain ⟨y', hy', hkeyed⟩ := tracks_keyed.of_served hp hc
  obtain rfl := Option.some.inj (hy.symm.trans hy')
  have hsame : b.calls = b'.calls := (congrArg Binding.calls hcalls : b.core.calls = b'.core.calls)
  rw [hsame]
  exact hkeyed.called hb' name

end Operations

/-- The keys of a binding object are distinct unless the binding takes up what is offered to its
class, and something is offered under the name of one of its calls. -/
theorem memberKeys_distinct_iff {doc : Document} {disk : Disk} {d : Draft} {className k : String}
    {x : EndpointEntry} {b : Binding} (h : Generates doc disk d)
    (hx : d.operations.get? className = some x) (hb : x.bindings.get? k = some b) :
    ∃ shape, ServedClass (.ofDocument doc) className shape ∧
      (b.memberKeys.Nodup ↔ ∀ name,
        Operations.receiving? className shape.exposures = some k →
        Operations.CalledUnder className (Operations.declared shape.exposures) k name →
        ∀ child, ¬OfferedOn (.ofDocument doc) className name child) := by
  obtain ⟨seeded, modeled, served, hp, hr⟩ := h.rendered
  rw [hr.operations] at hx
  obtain ⟨y, hy, -⟩ := hp.linked.entry hx
  obtain ⟨shape, hc, -⟩ := Operations.served_of_entry hp hy
  refine ⟨shape, hc, ?_⟩
  rw [Binding.nodup_memberKeys_iff]
  refine forall_congr' fun name => ?_
  rw [Operations.mem_calls_of_binding hp hc hx hb, Operations.mem_children_of_binding hp hc hx hb]
  constructor
  · intro hapart hreceiving hcalled child hoffered
    exact hapart hcalled ⟨hreceiving, child, hoffered⟩
  · rintro hapart hcalled ⟨hreceiving, child, hoffered⟩
    exact hapart hreceiving hcalled child hoffered

def listedBelow (property : String) : ClassDecl where
  className := "App\\Entity\\Comment"
  exposures := [{
    shortName := "Comment"
    uriVariables := [{
      parameter := "postId"
      fromClass := some "App\\Entity\\Post"
      fromProperty := some property }]
    operations := [{ type := some "GetCollection" }] }]

def listedPost : ClassDecl where
  className := "App\\Entity\\Post"
  exposures := [{ shortName := "Post", operations := [{ type := some "GetCollection" }] }]

def postsWith (property : String) : Document where
  classes := [listedPost, listedBelow property]

def postBinding? (r : OperationRegistry) : Option (EndpointEntry × Binding) := do
  let x ← r.get? "App\\Entity\\Post"
  let b ← x.bindings.get? "post"
  pure (x, b)

theorem exists_postBinding (property : String) (keys : List String)
    (h : (postsWith property).isGenerated = true)
    (hkeys : (postBinding? (extraction (.ofDocument (postsWith property)) {}).operations).map
      (fun p => (p.2.isExposed, p.2.memberKeys)) = some (true, keys)) :
    ∃ d x b, Generates (postsWith property) {} d ∧
      d.operations.get? "App\\Entity\\Post" = some x ∧ x.bindings.get? "post" = some b ∧
      b.isExposed = true ∧ b.memberKeys = keys := by
  obtain ⟨d, hd, -⟩ := exists_generates_of_isGenerated h
  obtain ⟨_, _, _, -, hr⟩ := hd.rendered
  rw [← hr.operations] at hkeys
  obtain ⟨⟨x, b⟩, hfound, hpair⟩ := Option.map_eq_some_iff.1 hkeys
  obtain ⟨hexposed, hkeys⟩ := Prod.mk.inj hpair
  obtain ⟨x', hx, hrest⟩ := Option.bind_eq_some_iff.1 hfound
  obtain ⟨b', hb, hpair⟩ := Option.bind_eq_some_iff.1 hrest
  obtain ⟨rfl, rfl⟩ := Prod.mk.inj (Option.some.inj hpair)
  exact ⟨d, x', b', hd, hx, hb, hexposed, hkeys⟩

theorem comments_beside_list : ∃ d x b, Generates (postsWith "comments") {} d ∧
    d.operations.get? "App\\Entity\\Post" = some x ∧ x.bindings.get? "post" = some b ∧
    b.memberKeys = ["list", "comments"] ∧
    ∃ shape, ServedClass (.ofDocument (postsWith "comments")) "App\\Entity\\Post" shape ∧
      ∀ name, Operations.receiving? "App\\Entity\\Post" shape.exposures = some "post" →
        Operations.CalledUnder "App\\Entity\\Post" (Operations.declared shape.exposures) "post"
          name →
        ∀ child, ¬OfferedOn (.ofDocument (postsWith "comments")) "App\\Entity\\Post"
          name child := by
  obtain ⟨d, x, b, hd, hx, hb, -, hkeys⟩ := exists_postBinding "comments"
    ["list", "comments"] (by decide +kernel) (by decide +kernel)
  obtain ⟨shape, hc, hiff⟩ := memberKeys_distinct_iff hd hx hb
  exact ⟨d, x, b, hd, hx, hb, hkeys, shape, hc, hiff.1 (by rw [hkeys]; decide)⟩

/-- Comments under the property of a post that is named like its list make the object of the post
name its list twice. -/
theorem comments_over_list : ∃ d x b, Generates (postsWith "list") {} d ∧
    d.operations.get? "App\\Entity\\Post" = some x ∧ x.bindings.get? "post" = some b ∧
    b.isExposed = true ∧ b.memberKeys = ["list", "list"] ∧ ¬b.memberKeys.Nodup := by
  obtain ⟨d, x, b, hd, hx, hb, hexposed, hkeys⟩ := exists_postBinding "list"
    ["list", "list"] (by decide +kernel) (by decide +kernel)
  exact ⟨d, x, b, hd, hx, hb, hexposed, hkeys, by rw [hkeys]; decide⟩

end HydraClient
