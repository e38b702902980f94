import HydraClient.Proofs.Serving

/-! # Guests

A class that joins the classes of a document brings an interface, an interface of query parameters
and an entry of operations. A draft without these three is what is left when they are hidden. What
is changed elsewhere is changed in both drafts alike, and what the guest changes stays hidden.
-/
namespace HydraClient

open Metadata TypeRegistry

/-- A class that joins a document, by its own name and that of its interface. -/
structure Guest where
  source : String
  name : String

namespace Guest

variable (g : Guest) {r : TypeRegistry} {s t : Draft} {u : TypeEntry} {n c : String}

def listName : String := Operations.listParamsName g.name

def listSource : String := Operations.listSource g.source

def Names (n : String) : Prop := n = g.name ∨ n = g.listName

def Sources (c : String) : Prop := c = g.source ∨ c = g.listSource

def Files (f : String) : Prop := f = "interfaces/" ++ g.name ∨ f = "endpoint/" ++ g.name

instance (n : String) : Decidable (g.Names n) := inferInstanceAs (Decidable (_ ∨ _))

instance (c : String) : Decidable (g.Sources c) := inferInstanceAs (Decidable (_ ∨ _))

instance (f : String) : Decidable (g.Files f) := inferInstanceAs (Decidable (_ ∨ _))

def hideTypes (r : TypeRegistry) : TypeRegistry where
  entries := (r.entries.erase g.name).erase g.listName
  sources := (r.sources.erase g.source).erase g.listSource

/-- A draft without what belongs to the guest. -/
def hide (d : Draft) : Draft :=
  { d with types := g.hideTypes d.types, operations := d.operations.erase g.source }

structure Absent (r : TypeRegistry) : Prop where
  names : ∀ {n}, g.Names n → r.get? n = none
  sources : ∀ {c}, g.Sources c → r.sources.get? c = none

variable {g}

theorem get?_hideTypes : (g.hideTypes r).get? n = if g.Names n then none else r.get? n := by
  unfold get? hideTypes Names
  rw [OrderedMap.get?_erase, OrderedMap.get?_erase]
  by_cases hlist : n = g.listName
  · simp [hlist]
  · by_cases hname : n = g.name <;> simp [hlist, hname]

theorem sources_hideTypes :
    (g.hideTypes r).sources.get? c = if g.Sources c then none else r.sources.get? c := by
  unfold hideTypes Sources
  rw [OrderedMap.get?_erase, OrderedMap.get?_erase]
  by_cases hlist : c = g.listSource
  · simp [hlist]
  · by_cases hsource : c = g.source <;> simp [hlist, hsource]

theorem absent_hideTypes : g.Absent (g.hideTypes r) where
  names hn := by rw [get?_hideTypes, if_pos hn]
  sources hc := by rw [sources_hideTypes, if_pos hc]

theorem hideTypes_of_absent (h : g.Absent r) : g.hideTypes r = r := by
  have hname : r.entries.erase g.name = r.entries :=
    OrderedMap.erase_eq_self (OrderedMap.get?_eq_none_iff.1 (h.names (.inl rfl)))
  have hlist : r.entries.erase g.listName = r.entries :=
    OrderedMap.erase_eq_self (OrderedMap.get?_eq_none_iff.1 (h.names (.inr rfl)))
  have hsource : r.sources.erase g.source = r.sources :=
    OrderedMap.erase_eq_self (OrderedMap.get?_eq_none_iff.1 (h.sources (.inl rfl)))
  have hlistSource : r.sources.erase g.listSource = r.sources :=
    OrderedMap.erase_eq_self (OrderedMap.get?_eq_none_iff.1 (h.sources (.inr rfl)))
  rw [hideTypes, hname, hlist, hsource, hlistSource]

theorem Absent.modify_eq {f : TypeEntry → TypeEntry} (h : g.Absent r) (hn : g.Names n) :
    r.modify n f = r := by
  unfold TypeRegistry.modify
  rw [OrderedMap.modify_eq_self (OrderedMap.get?_eq_none_iff.1 (h.names hn))]

theorem hideTypes_modify (f : TypeEntry → TypeEntry) :
    g.hideTypes (r.modify n f) = (g.hideTypes r).modify n f := by
  simp only [hideTypes, TypeRegistry.modify, OrderedMap.erase_modify]

theorem hideTypes_put (hn : ¬g.Names u.name) (hu : u.source = some c) (hc : ¬g.Sources c) :
    g.hideTypes (r.put u) = (g.hideTypes r).put u := by
  unfold Names at hn
  unfold Sources at hc
  rw [not_or] at hn hc
  simp only [hideTypes, put, hu, OrderedMap.erase_insert_of_ne _ _ hn.1,
    OrderedMap.erase_insert_of_ne _ _ hn.2, OrderedMap.erase_insert_of_ne _ _ hc.1,
    OrderedMap.erase_insert_of_ne _ _ hc.2]

theorem erase_erase_insert {β : Type} {m : OrderedMap String β} {k a b : String} {v : β}
    (h : k = a ∨ k = b) : ((m.insert k v).erase a).erase b = (m.erase a).erase b := by
  rcases h with rfl | rfl
  · rw [OrderedMap.erase_insert_self]
  · rw [OrderedMap.erase_comm, OrderedMap.erase_insert_self, OrderedMap.erase_comm]

theorem hideTypes_put_own (hn : g.Names u.name) (hu : u.source = some c) (hc : g.Sources c) :
    g.hideTypes (r.put u) = g.hideTypes r := by
  simp only [hideTypes, put, hu, erase_erase_insert hn, erase_erase_insert hc]

theorem name_ne_listName : g.name ≠ g.listName := by
  intro h
  have hlength := congrArg String.length h
  rw [listName, Operations.listParamsName, String.length_append] at hlength
  have hmark : "ListParams".length = 10 := by decide
  omega

theorem source_ne_listSource : g.source ≠ g.listSource := Operations.ne_listSource g.source

variable (g) in
structure Hosts (r : TypeRegistry) : Prop where
  type : ∀ {u}, r.get? g.name = some u →
    u.name = g.name ∧ u.source = some g.source ∧ u.file = some ("interfaces/" ++ g.name)
  list : ∀ {u}, r.get? g.listName = some u →
    u.source = some g.listSource ∧ u.file = some ("endpoint/" ++ g.name)
  index : ∀ {n}, r.sources.get? g.source = some n → n = g.name

namespace Hosts

theorem of_absent (h : g.Absent r) : g.Hosts r where
  type hu := by
    rw [h.names (.inl rfl)] at hu
    cases hu
  list hu := by
    rw [h.names (.inr rfl)] at hu
    cases hu
  index hn := by
    rw [h.sources (.inl rfl)] at hn
    cases hn

theorem modify {f : TypeEntry → TypeEntry} (h : g.Hosts r) (hf : ∀ t, (f t).head = t.head) :
    g.Hosts (r.modify n f) where
  type hu := by
    obtain ⟨v, hv, hhead⟩ := exists_of_get?_modify hf hu
    obtain ⟨hname, hsource, hfile⟩ := h.type hv
    exact ⟨(TypeEntry.name_of_head hhead).trans hname,
      (TypeEntry.source_of_head hhead).trans hsource, (TypeEntry.file_of_head hhead).trans hfile⟩
  list hu := by
    obtain ⟨v, hv, hhead⟩ := exists_of_get?_modify hf hu
    obtain ⟨hsource, hfile⟩ := h.list hv
    exact ⟨(TypeEntry.source_of_head hhead).trans hsource,
      (TypeEntry.file_of_head hhead).trans hfile⟩
  index hn := h.index hn

theorem put (h : g.Hosts r) (hn : ¬g.Names u.name) (hu : u.source = some c) (hc : ¬g.Sources c) :
    g.Hosts (r.put u) where
  type hv := by
    rw [get?_put, if_neg fun heq => hn (.inl heq.symm)] at hv
    exact h.type hv
  list hv := by
    rw [get?_put, if_neg fun heq => hn (.inr heq.symm)] at hv
    exact h.list hv
  index hm := by
    rw [sources_put hu, OrderedMap.get?_insert, if_neg fun heq => hc (.inl heq.symm)] at hm
    exact h.index hm

theorem put_type (h : g.Hosts r) (hname : u.name = g.name) (hsource : u.source = some g.source)
    (hfile : u.file = some ("interfaces/" ++ g.name)) : g.Hosts (r.put u) where
  type hv := by
    rw [get?_put, if_pos hname.symm] at hv
    obtain rfl := Option.some.inj hv
    exact ⟨hname, hsource, hfile⟩
  list hv := by
    rw [get?_put, hname, if_neg name_ne_listName.symm] at hv
    exact h.list hv
  index hm := by
    rw [sources_put hsource, OrderedMap.get?_insert, if_pos rfl] at hm
    exact (Option.some.inj hm).symm.trans hname

theorem put_list (h : g.Hosts r) (hname : u.name = g.listName)
    (hsource : u.source = some g.listSource) (hfile : u.file = some ("endpoint/" ++ g.name)) :
    g.Hosts (r.put u) where
  type hv := by
    rw [get?_put, hname, if_neg name_ne_listName] at hv
    exact h.type hv
  list hv := by
    rw [get?_put, if_pos hname.symm] at hv
    obtain rfl := Option.some.inj hv
    exact ⟨hsource, hfile⟩
  index hm := by
    rw [sources_put hsource, OrderedMap.get?_insert,
      if_neg source_ne_listSource] at hm
    exact h.index hm

end Hosts

variable (g) in
structure Serves (e : EndpointEntry) : Prop where
  source : e.source = g.source
  file : e.file = "endpoint/" ++ g.name
  links : ∀ b ∈ e.bindings.values, b.links = []

variable (g) in
/-- A draft without the guest, and the same draft with the guest in it. -/
structure Beside (s t : Draft) : Prop where
  hidden : g.hide t = s
  hosts : g.Hosts t.types
  entry : ∀ {e}, t.operations.get? g.source = some e → g.Serves e

namespace Beside

variable {f : TypeEntry → TypeEntry} {k : EndpointEntry → EndpointEntry}
  {candidates : List String}

theorem types_eq (h : g.Beside s t) : s.types = g.hideTypes t.types := by
  rw [← h.hidden]
  rfl

theorem operations_eq (h : g.Beside s t) : s.operations = t.operations.erase g.source := by
  rw [← h.hidden]
  rfl

theorem absent (h : g.Beside s t) : g.Absent s.types := by
  rw [h.types_eq]
  exact absent_hideTypes

theorem get?_eq (h : g.Beside s t) (hn : ¬g.Names n) : t.types.get? n = s.types.get? n := by
  rw [h.types_eq, get?_hideTypes, if_neg hn]

theorem get?_of_some (h : g.Beside s t) (hu : s.types.get? n = some u) :
    t.types.get? n = some u := by
  rw [h.get?_eq, hu]
  intro hn
  rw [h.absent.names hn] at hu
  cases hu

theorem sources_eq (h : g.Beside s t) (hc : ¬g.Sources c) :
    t.types.sources.get? c = s.types.sources.get? c := by
  rw [h.types_eq, sources_hideTypes, if_neg hc]

theorem lookupSource_of_some (h : g.Beside s t) (hu : s.types.lookupSource c = some u) :
    t.types.lookupSource c = some u := by
  obtain ⟨n, hn, hget⟩ := lookupSource_eq_some.1 hu
  refine lookupSource_eq_some.2 ⟨n, ?_, h.get?_of_some hget⟩
  rw [h.sources_eq, hn]
  intro hc
  rw [h.absent.sources hc] at hn
  cases hn

theorem lookupSource_of_none (h : g.Beside s t) (hs : Coherent s.types) (hc : ¬g.Sources c)
    (hnone : s.types.lookupSource c = none) : t.types.lookupSource c = none := by
  unfold lookupSource at hnone ⊢
  rw [h.sources_eq hc]
  cases hn : s.types.sources.get? c with
  | none => rfl
  | some n =>
    obtain ⟨u, hu, -⟩ := hs.sourced hn
    rw [hn, Option.bind_some, hu] at hnone
    cases hnone

theorem operations_get? (h : g.Beside s t) (hc : c ≠ g.source) :
    t.operations.get? c = s.operations.get? c := by
  rw [h.operations_eq, OrderedMap.get?_erase, if_neg hc]

theorem resolveName (h : g.Beside s t) (hn : ¬g.Names n)
    (hpick : s.types.resolveName candidates c = .ok n) :
    t.types.resolveName candidates c = .ok n := by
  unfold TypeRegistry.resolveName at hpick ⊢
  cases hfind : candidates.find? fun k =>
      (s.types.get? k).all fun t => t.source == some c with
  | none => simp [hfind] at hpick
  | some m =>
    rw [hfind] at hpick
    obtain rfl := Except.ok.inj hpick
    obtain ⟨hfree, before, after, hsplit, hbefore⟩ := List.find?_eq_some_iff_append.1 hfind
    have hfind' : candidates.find? (fun k =>
        (t.types.get? k).all fun t => t.source == some c) = some m := by
      refine List.find?_eq_some_iff_append.2
        ⟨by rw [h.get?_eq hn]; exact hfree, before, after, hsplit, fun k hk => ?_⟩
      -- A candidate that was passed over is held by another source, and still is.
      have htaken := hbefore k hk
      cases hheld : s.types.get? k with
      | none => simp [hheld] at htaken
      | some held => simpa [hheld, h.get?_of_some hheld] using htaken
    rw [hfind']

theorem put (h : g.Beside s t) (hn : ¬g.Names u.name) (hu : u.source = some c)
    (hc : ¬g.Sources c) :
    g.Beside { s with types := s.types.put u } { t with types := t.types.put u } where
  hidden := by
    rw [← h.hidden]
    simp only [hide, hideTypes_put hn hu hc]
  hosts := h.hosts.put hn hu hc
  entry := h.entry

theorem modifyType (h : g.Beside s t) (hf : ∀ t, (f t).head = t.head) :
    g.Beside { s with types := s.types.modify n f } { t with types := t.types.modify n f } where
  hidden := by
    rw [← h.hidden]
    simp only [hide, hideTypes_modify]
  hosts := h.hosts.modify hf
  entry := h.entry

theorem modifyEntry (h : g.Beside s t) (hc : c ≠ g.source) :
    g.Beside { s with operations := s.operations.modify c k }
      { t with operations := t.operations.modify c k } where
  hidden := by
    rw [← h.hidden]
    simp only [hide, OrderedMap.erase_modify]
  hosts := h.hosts
  entry he := by
    rw [OrderedMap.get?_modify, if_neg hc.symm] at he
    exact h.entry he

theorem insertEntry {e : EndpointEntry} (h : g.Beside s t) (hc : c ≠ g.source) :
    g.Beside { s with operations := s.operations.insert c e }
      { t with operations := t.operations.insert c e } where
  hidden := by
    rw [← h.hidden]
    simp only [hide, OrderedMap.erase_insert_of_ne _ _ hc]
  hosts := h.hosts
  entry he := by
    rw [OrderedMap.get?_insert, if_neg hc.symm] at he
    exact h.entry he

theorem put_own (h : g.Beside s t) (hn : g.Names u.name) (hu : u.source = some c)
    (hc : g.Sources c) (hr : g.Hosts (t.types.put u)) :
    g.Beside s { t with types := t.types.put u } where
  hidden := by
    rw [← h.hidden]
    simp only [hide, hideTypes_put_own hn hu hc]
  hosts := hr
  entry := h.entry

theorem modifyType_own (h : g.Beside s t) (hn : g.Names n) (hf : ∀ t, (f t).head = t.head) :
    g.Beside s { t with types := t.types.modify n f } := by
  have hboth := h.modifyType (n := n) hf
  rwa [h.absent.modify_eq hn] at hboth

theorem modifyEntry_own (h : g.Beside s t) (hk : ∀ e, g.Serves e → g.Serves (k e)) :
    g.Beside s { t with operations := t.operations.modify g.source k } where
  hidden := by
    rw [← h.hidden]
    simp only [hide, OrderedMap.erase_modify]
    rw [OrderedMap.modify_eq_self]
    rw [OrderedMap.keys_erase]
    simp
  hosts := h.hosts
  entry he := by
    rw [OrderedMap.get?_modify, if_pos rfl] at he
    obtain ⟨e, hget, rfl⟩ := Option.map_eq_some_iff.1 he
    exact hk e (h.entry hget)

theorem insertEntry_own {e : EndpointEntry} (h : g.Beside s t) (he : g.Serves e) :
    g.Beside s { t with operations := t.operations.insert g.source e } where
  hidden := by
    rw [← h.hidden]
    simp only [hide, OrderedMap.erase_insert_self]
  hosts := h.hosts
  entry hget := by
    rw [OrderedMap.get?_insert, if_pos rfl] at hget
    exact Option.some.inj hget ▸ he

end Beside
end Guest
end HydraClient
