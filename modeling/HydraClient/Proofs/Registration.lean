import HydraClient.Registry.Types

/-! # Registration

What the registry keeps of a type once it is registered. Its head stays for good, while imports,
parents and properties may still be added to it.
-/
namespace HydraClient

/-- A type without the parts that fields and parents add to. -/
def TypeEntry.head (t : TypeEntry) : TypeEntry :=
  { t with imports := .empty, supers := [], properties := .empty }

namespace TypeEntry

variable {t u : TypeEntry}

theorem name_of_head (h : t.head = u.head) : t.name = u.name :=
  (congrArg name h : t.head.name = u.head.name)

theorem kind_of_head (h : t.head = u.head) : t.kind = u.kind :=
  (congrArg kind h : t.head.kind = u.head.kind)

theorem file_of_head (h : t.head = u.head) : t.file = u.file :=
  (congrArg file h : t.head.file = u.head.file)

theorem source_of_head (h : t.head = u.head) : t.source = u.source :=
  (congrArg source h : t.head.source = u.head.source)

theorem hasFactory_of_head (h : t.head = u.head) : t.hasFactory = u.hasFactory :=
  (congrArg hasFactory h : t.head.hasFactory = u.head.hasFactory)

theorem members_of_head (h : t.head = u.head) : t.members = u.members :=
  (congrArg members h : t.head.members = u.head.members)

theorem isRendered_of_head (h : t.head = u.head) : t.isRendered = u.isRendered :=
  (congrArg isRendered h : t.head.isRendered = u.head.isRendered)

@[simp] theorem head_addImport (file : Option String) (n : String) :
    (t.addImport file n).head = t.head := rfl

@[simp] theorem head_addProperty (p : Property) : (t.addProperty p).head = t.head := rfl

theorem mem_keys_addProperty {p : Property} {k : String}
    (h : k ∈ (t.addProperty p).properties.keys) : k ∈ t.properties.keys ∨ k = p.name := by
  rw [addProperty, OrderedMap.keys_insert] at h
  split at h
  · exact .inl h
  · exact (List.mem_append.1 h).imp_right List.mem_singleton.1

@[simp] theorem takes_addImport {file : Option String} {n g m : String} :
    (t.addImport file n).imports.Takes g m ↔ (file = some g ∧ m = n) ∨ t.imports.Takes g m :=
  Imports.takes_addFrom

end TypeEntry

namespace TypeRegistry

variable {r r' : TypeRegistry} {t u : TypeEntry} {n s : String}

def put (r : TypeRegistry) (t : TypeEntry) : TypeRegistry where
  entries := r.entries.insert t.name t
  sources := match t.source with
    | some s => r.sources.insert s t.name
    | none => r.sources

theorem register_ok_iff : r.register t = .ok r' ↔
    (∀ held, r.get? t.name = some held → held.source = t.source) ∧ r' = r.put t := by
  unfold register
  cases h : r.get? t.name with
  | none => exact ⟨fun e => ⟨by simp, (Except.ok.inj e).symm⟩, fun e => congrArg _ e.2.symm⟩
  | some held =>
    by_cases hs : held.source = t.source
    · simp only [hs]
      exact ⟨fun e => ⟨by simp [hs], (Except.ok.inj e).symm⟩, fun e => congrArg _ e.2.symm⟩
    · simp [hs]

theorem sources_put (hs : t.source = some s) : (r.put t).sources = r.sources.insert s t.name := by
  simp [put, hs]

theorem get?_put : (r.put t).get? n = if n = t.name then some t else r.get? n :=
  r.entries.get?_insert t.name n t

theorem get?_modify {f : TypeEntry → TypeEntry} {m : String} :
    (r.modify m f).get? n = if n = m then (r.get? n).map f else r.get? n :=
  r.entries.get?_modify m n f

theorem exists_of_get?_modify {f : TypeEntry → TypeEntry} {m : String}
    (hf : ∀ t, (f t).head = t.head) (hu : (r.modify m f).get? n = some u) :
    ∃ v, r.get? n = some v ∧ u.head = v.head := by
  rw [get?_modify] at hu
  split at hu
  · obtain ⟨v, hv, rfl⟩ := Option.map_eq_some_iff.1 hu
    exact ⟨v, hv, hf v⟩
  · exact ⟨u, hu, rfl⟩

theorem mem_toList : t ∈ r.toList ↔ ∃ n, r.get? n = some t := r.entries.mem_values_iff

theorem lookupSource_eq_some : r.lookupSource s = some t ↔
    ∃ n, r.sources.get? s = some n ∧ r.get? n = some t := by
  simp [lookupSource, Option.bind_eq_some_iff]

theorem lookupSource_modify {f : TypeEntry → TypeEntry} : (r.modify n f).lookupSource s =
    if r.sources.get? s = some n then (r.lookupSource s).map f else r.lookupSource s := by
  have hsources : (r.modify n f).sources = r.sources := rfl
  unfold lookupSource
  rw [hsources]
  cases r.sources.get? s with
  | none => rfl
  | some m => by_cases hm : m = n <;> simp [get?_modify, hm]

theorem resolveName_ok {candidates : List String} (h : r.resolveName candidates s = .ok n) :
    n ∈ candidates ∧ ∀ held, r.get? n = some held → held.source = some s := by
  unfold resolveName at h
  split at h
  · rename_i c hc
    cases h
    refine ⟨List.mem_of_find?_eq_some hc, fun held hh => ?_⟩
    simpa [hh] using List.find?_some hc
  · cases h

structure ChangesAt (n : String) (t : TypeEntry) (r r' : TypeRegistry) : Prop where
  new : r'.get? n = some t
  frame : ∀ {m u}, m ≠ n → r'.get? m = some u → r.get? m = some u

namespace ChangesAt

theorem put (r : TypeRegistry) (t : TypeEntry) : ChangesAt t.name t r (r.put t) where
  new := by simp [get?_put]
  frame hm hu := by rwa [get?_put, if_neg hm] at hu

theorem modify {f : TypeEntry → TypeEntry} (ht : r.get? n = some t) :
    ChangesAt n (f t) r (r.modify n f) where
  new := by simp [get?_modify, ht]
  frame hm hu := by rwa [get?_modify, if_neg hm] at hu

theorem forall_entries {P : TypeEntry → Prop} (h : ChangesAt n t r r')
    (hold : ∀ {m u}, r.get? m = some u → P u) (hnew : P t) :
    ∀ {m u}, r'.get? m = some u → P u := by
  intro m u hu
  by_cases hm : m = n
  · subst hm
    obtain rfl := Option.some.inj (h.new.symm.trans hu)
    exact hnew
  · exact hold (h.frame hm hu)

end ChangesAt

/-- Names and sources agree with the entries that they lead to. -/
structure Coherent (r : TypeRegistry) : Prop where
  named : ∀ {n t}, r.get? n = some t → t.name = n
  known : ∀ {n t}, r.get? n = some t → ∃ s m, t.source = some s ∧ r.sources.get? s = some m
  sourced : ∀ {s n}, r.sources.get? s = some n → ∃ t, r.get? n = some t ∧ t.source = some s

namespace Coherent

theorem of_lookupSource (h : Coherent r) (hs : r.lookupSource s = some t) :
    r.sources.get? s = some t.name ∧ r.get? t.name = some t ∧ t.source = some s := by
  obtain ⟨n, hn, ht⟩ := lookupSource_eq_some.1 hs
  obtain ⟨u, hu, hus⟩ := h.sourced hn
  obtain rfl : t = u := Option.some.inj (ht.symm.trans hu)
  obtain rfl := h.named ht
  exact ⟨hn, ht, hus⟩

theorem resolveName_fresh {candidates : List String} (h : Coherent r)
    (hs : r.lookupSource s = none) (hn : r.resolveName candidates s = .ok n) :
    r.get? n = none := by
  cases hu : r.get? n with
  | none => rfl
  | some u =>
    obtain ⟨s', m, hus, hm⟩ := h.known hu
    obtain rfl : s' = s := Option.some.inj (hus.symm.trans ((resolveName_ok hn).2 u hu))
    obtain ⟨v, hv, -⟩ := h.sourced hm
    rw [lookupSource_eq_some.2 ⟨m, hm, hv⟩] at hs
    cases hs

theorem put (h : Coherent r) (hs : t.source = some s)
    (ht : ∀ held, r.get? t.name = some held → held.source = t.source) : Coherent (r.put t) where
  named {n u} hu := by
    rw [get?_put] at hu
    split at hu
    · rename_i e
      obtain rfl := Option.some.inj hu
      exact e.symm
    · exact h.named hu
  known {n u} hu := by
    simp only [sources_put hs, OrderedMap.get?_insert]
    rw [get?_put] at hu
    split at hu
    · obtain rfl := Option.some.inj hu
      exact ⟨s, t.name, hs, by simp⟩
    · obtain ⟨s', m, hs', hm⟩ := h.known hu
      by_cases e : s' = s
      · exact ⟨s', t.name, hs', by simp [e]⟩
      · exact ⟨s', m, hs', by simp [e, hm]⟩
  sourced {s' n} hn := by
    rw [sources_put hs, OrderedMap.get?_insert] at hn
    rw [get?_put]
    split at hn
    · rename_i e
      obtain rfl := Option.some.inj hn
      exact ⟨t, by simp, e ▸ hs⟩
    · rename_i e
      obtain ⟨u, hu, hus⟩ := h.sourced hn
      by_cases en : n = t.name
      · have := ht u (en ▸ hu)
        rw [hus, hs] at this
        exact absurd (Option.some.inj this) e
      · exact ⟨u, by simp [en, hu], hus⟩

theorem lookupSource_put_of_ne {x : String} (h : Coherent r) (hfree : r.get? t.name = none)
    (ht : t.source = some x) (hne : s ≠ x) : (r.put t).lookupSource s = r.lookupSource s := by
  unfold lookupSource
  rw [sources_put ht, OrderedMap.get?_insert, if_neg hne]
  cases hm : r.sources.get? s with
  | none => rfl
  | some m =>
    obtain ⟨u, hu, -⟩ := h.sourced hm
    have hname : m ≠ t.name := fun e => by
      rw [e, hfree] at hu
      cases hu
    rw [Option.bind_some, Option.bind_some, get?_put, if_neg hname]

theorem modify {f : TypeEntry → TypeEntry} (h : Coherent r) (hf : ∀ t, (f t).head = t.head) :
    Coherent (r.modify n f) := by
  refine ⟨fun hu => ?_, fun hu => ?_, fun {s m} hm => ?_⟩
  · obtain ⟨v, hv, e⟩ := exists_of_get?_modify hf hu
    exact (TypeEntry.name_of_head e).trans (h.named hv)
  · obtain ⟨v, hv, e⟩ := exists_of_get?_modify hf hu
    obtain ⟨s, m, hs, hm⟩ := h.known hv
    exact ⟨s, m, (TypeEntry.source_of_head e).trans hs, hm⟩
  · obtain ⟨v, hv, hs⟩ := h.sourced hm
    rw [get?_modify, hv]
    split
    · exact ⟨f v, rfl, (TypeEntry.source_of_head (hf v)).trans hs⟩
    · exact ⟨v, rfl, hs⟩

end Coherent

structure Extends (r r' : TypeRegistry) : Prop where
  entries : ∀ {n t}, r.get? n = some t → r'.get? n = some t
  sources : ∀ {s n}, r.sources.get? s = some n → r'.sources.get? s = some n

namespace Extends

theorem refl (r : TypeRegistry) : Extends r r := ⟨id, id⟩

theorem trans {r₁ r₂ r₃ : TypeRegistry} (h : Extends r₁ r₂) (h' : Extends r₂ r₃) :
    Extends r₁ r₃ :=
  ⟨fun ht => h'.entries (h.entries ht), fun hn => h'.sources (h.sources hn)⟩

theorem lookupSource (h : Extends r r') (hs : r.lookupSource s = some t) :
    r'.lookupSource s = some t := by
  obtain ⟨n, hn, ht⟩ := lookupSource_eq_some.1 hs
  exact lookupSource_eq_some.2 ⟨n, h.sources hn, h.entries ht⟩

theorem put (hs : r.lookupSource s = none) (hr : Coherent r) (ht : t.source = some s)
    (hn : r.get? t.name = none) : Extends r (r.put t) where
  entries {n u} hu := by
    rw [get?_put, if_neg, hu]
    rintro rfl
    simp [hn] at hu
  sources {s' n} h := by
    rw [sources_put ht, OrderedMap.get?_insert, if_neg, h]
    rintro rfl
    obtain ⟨u, hu, -⟩ := hr.sourced h
    simp [lookupSource_eq_some.2 ⟨n, h, hu⟩] at hs

theorem modify {f : TypeEntry → TypeEntry} (h : Extends r r') (hn : r.get? n = none) :
    Extends r (r'.modify n f) where
  entries {m u} hu := by
    rw [get?_modify, if_neg, h.entries hu]
    rintro rfl
    simp [hn] at hu
  sources := h.sources

end Extends

structure KeepsBut (x : String) (r r' : TypeRegistry) : Prop where
  entries : ∀ {n t}, r.get? n = some t → t.source ≠ some x → r'.get? n = some t
  sources : ∀ {s n}, s ≠ x → r.sources.get? s = some n → r'.sources.get? s = some n

namespace KeepsBut

variable {x : String}

theorem refl (r : TypeRegistry) : KeepsBut x r r := ⟨fun h _ => h, fun _ h => h⟩

theorem trans {r₁ r₂ r₃ : TypeRegistry} (h : KeepsBut x r₁ r₂) (h' : KeepsBut x r₂ r₃) :
    KeepsBut x r₁ r₃ :=
  ⟨fun ht hs => h'.entries (h.entries ht hs) hs, fun hs hn => h'.sources hs (h.sources hs hn)⟩

theorem of_extends (h : Extends r r') : KeepsBut x r r' :=
  ⟨fun ht _ => h.entries ht, fun _ hn => h.sources hn⟩

theorem put (ht : t.source = some x)
    (hheld : ∀ held, r.get? t.name = some held → held.source = t.source) :
    KeepsBut x r (r.put t) where
  entries {n u} hu hs := by
    rw [get?_put, if_neg, hu]
    rintro rfl
    exact hs ((hheld u hu).trans ht)
  sources {s n} hs h := by
    rw [sources_put ht, OrderedMap.get?_insert, if_neg hs, h]

theorem lookupSource (h : KeepsBut x r r') (hr : Coherent r) (hs : s ≠ x)
    (ht : r.lookupSource s = some t) : r'.lookupSource s = some t := by
  obtain ⟨hn, hget, hsource⟩ := hr.of_lookupSource ht
  refine lookupSource_eq_some.2 ⟨t.name, h.sources hs hn, h.entries hget ?_⟩
  rw [hsource]
  exact fun e => hs (Option.some.inj e)

end KeepsBut

structure Keeps (r r' : TypeRegistry) : Prop where
  heads : ∀ {n t}, r.get? n = some t → ∃ u, r'.get? n = some u ∧ u.head = t.head

namespace Keeps

theorem refl (r : TypeRegistry) : Keeps r r := ⟨fun h => ⟨_, h, rfl⟩⟩

theorem trans {r₁ r₂ r₃ : TypeRegistry} (h : Keeps r₁ r₂) (h' : Keeps r₂ r₃) : Keeps r₁ r₃ where
  heads ht := by
    obtain ⟨u, hu, e⟩ := h.heads ht
    obtain ⟨v, hv, e'⟩ := h'.heads hu
    exact ⟨v, hv, e'.trans e⟩

theorem of_extends (h : Extends r r') : Keeps r r' := ⟨fun ht => ⟨_, h.entries ht, rfl⟩⟩

theorem modify {f : TypeEntry → TypeEntry} (hf : ∀ t, (f t).head = t.head) :
    Keeps r (r.modify n f) where
  heads {m u} hu := by
    rw [get?_modify, hu]
    split
    · exact ⟨f u, rfl, hf u⟩
    · exact ⟨u, rfl, rfl⟩

theorem put (ht : ∀ held, r.get? t.name = some held → t.head = held.head) :
    Keeps r (r.put t) where
  heads {m u} hu := by
    rw [get?_put]
    split
    · rename_i e
      exact ⟨t, rfl, ht u (e ▸ hu)⟩
    · exact ⟨u, hu, rfl⟩

end Keeps

def Declares (r : TypeRegistry) (file n : String) : Prop :=
  ∃ t, r.get? n = some t ∧ t.file = some file

theorem Declares.of_keeps {file : String} (hd : Declares r file n) (h : Keeps r r') :
    Declares r' file n := by
  obtain ⟨t, ht, hf⟩ := hd
  obtain ⟨u, hu, e⟩ := h.heads ht
  exact ⟨u, hu, (TypeEntry.file_of_head e).trans hf⟩

/-- A name that is free of imports: its type has no file, or it is imported from there. -/
def Imported (r : TypeRegistry) (i : Imports) (n : String) : Prop :=
  ∃ t, r.get? n = some t ∧ ∀ f, t.file = some f → i.Takes f n

/-- A name that the type of the own name may use under its imports. -/
def Reaches (r : TypeRegistry) (own : String) (i : Imports) (n : String) : Prop :=
  r.Imported i n ∨ n = own ∧ ∃ t, r.get? n = some t

theorem Imported.of_keeps {i : Imports} (h : Imported r i n) (hr : Keeps r r') :
    Imported r' i n := by
  obtain ⟨t, ht, hf⟩ := h
  obtain ⟨u, hu, e⟩ := hr.heads ht
  exact ⟨u, hu, fun f hfile => hf f ((TypeEntry.file_of_head e).symm.trans hfile)⟩

theorem Imported.mono {i j : Imports} (h : Imported r i n)
    (hij : ∀ {f n}, i.Takes f n → j.Takes f n) : Imported r j n := by
  obtain ⟨t, ht, hf⟩ := h
  exact ⟨t, ht, fun f hfile => hij (hf f hfile)⟩

theorem Reaches.of_keeps {own : String} {i : Imports} (h : Reaches r own i n) (hr : Keeps r r') :
    Reaches r' own i n := by
  rcases h with h | ⟨rfl, t, ht⟩
  · exact .inl (h.of_keeps hr)
  · obtain ⟨u, hu, -⟩ := hr.heads ht
    exact .inr ⟨rfl, u, hu⟩

theorem Reaches.mono {own : String} {i j : Imports} (h : Reaches r own i n)
    (hij : ∀ {f n}, i.Takes f n → j.Takes f n) : Reaches r own j n :=
  h.imp_left fun h => h.mono hij

end TypeRegistry

end HydraClient
