import HydraClient.Proofs.BaseEntries
import HydraClient.Proofs.Extraction

/-! # Origins of types

Whatever a document declares, every type is a base type, the interface of a class, an enum or an
interface of query parameters. The interface of a class records what its own properties make it
import. Beyond that it takes the names of its parents only, and no parent is an enum.
-/
namespace HydraClient

open Metadata TypeRegistry Model Operations

def NamesPlain (r : TypeRegistry) (n : String) : Prop :=
  ∃ u, r.get? n = some u ∧ u.kind ≠ .nativeEnum

/-- The imports of an interface of a class agree with its properties. -/
structure Recorded (r : TypeRegistry) (shape : ClassDecl) (t : TypeEntry) : Prop where
  covered : ∀ p ∈ t.properties.values, ∀ {f n},
    (TypeEntry.importsOf p).Takes f n → t.imports.Takes f n
  recorded : (shape.fields.map (·.name)).Nodup → ∀ {f n}, t.imports.Takes f n →
    NamesPlain r n ∨ ∃ p ∈ t.properties.values, (TypeEntry.importsOf p).Takes f n

inductive Origin (cat : Catalog) (r : TypeRegistry) (t : TypeEntry) : Prop where
  | base : t ∈ BaseTypes.all cat.config.hydraStart → Origin cat r t
  | model {className : String} {shape : ClassDecl} : cat.class? className = some shape →
      t.head = (bare t.name className shape).head → Recorded r shape t → Origin cat r t
  | enumeration {className file : String} {shape : EnumDecl} :
      cat.classify className = .enumeration → t = nativeEnum t.name className file shape →
      Origin cat r t
  | list {resource source : String} : t.head = {
        name := t.name
        kind := .interface
        file := some ("endpoint/" ++ resource)
        source := some source } → Origin cat r t

/-- What holds of the registry after every change, for every document. -/
structure Traced (cat : Catalog) (r : TypeRegistry) : Prop where
  coherent : Coherent r
  item : NamesPlain r "HydraItem"
  entries : ∀ {n t}, r.get? n = some t → Origin cat r t

section Recorded

variable {r r' : TypeRegistry} {shape : ClassDecl} {t : TypeEntry} {q : Property} {n : String}

theorem Recorded.mono (h : Recorded r shape t) (hr : ∀ {n}, NamesPlain r n → NamesPlain r' n) :
    Recorded r' shape t where
  covered := h.covered
  recorded hd _ _ hi := (h.recorded hd hi).imp_left hr

theorem Recorded.bare (name className : String) :
    Recorded r shape (bare name className shape) where
  covered := by simp [Model.bare, OrderedMap.values, OrderedMap.empty]
  recorded _ _ _ h := absurd h (Imports.not_takes_empty _ _)

theorem Recorded.extend {file : Option String} (h : Recorded r shape t) (hn : NamesPlain r n) :
    Recorded r shape ({ t with supers := t.supers ++ [n] }.addImport file n) := by
  have hproperties : ({ t with supers := t.supers ++ [n] }.addImport file n).properties =
      t.properties := rfl
  constructor
  case covered =>
    rw [hproperties]
    intro p hp f m hi
    exact TypeEntry.takes_addImport.2 (.inr (h.covered p hp hi))
  case recorded =>
    rw [hproperties]
    intro hd f m hi
    rcases TypeEntry.takes_addImport.1 hi with ⟨-, rfl⟩ | hi
    · exact .inl hn
    · exact h.recorded hd hi

theorem Recorded.addProperty (h : Recorded r shape t)
    (hfresh : (shape.fields.map (·.name)).Nodup → t.properties.get? q.name = none) :
    Recorded r shape (t.addProperty q) := by
  constructor
  case covered =>
    intro p hp f m hi
    rcases OrderedMap.mem_values_insert hp with rfl | hp
    · exact Imports.takes_merge.2 (.inr hi)
    · exact Imports.takes_merge.2 (.inl (h.covered p hp hi))
  case recorded =>
    intro hd f m hi
    rcases Imports.takes_merge.1 hi with hi | hi
    · refine (h.recorded hd hi).imp_right ?_
      rintro ⟨p, hp, hi⟩
      obtain ⟨k, hk⟩ := OrderedMap.mem_values_iff.1 hp
      have hne : k ≠ q.name := fun e => by
        rw [e, hfresh hd] at hk
        cases hk
      refine ⟨p, OrderedMap.mem_values_iff.2 ⟨k, ?_⟩, hi⟩
      rw [TypeEntry.addProperty, OrderedMap.get?_insert, if_neg hne, hk]
    · refine .inr ⟨q, OrderedMap.mem_values_iff.2 ⟨q.name, ?_⟩, hi⟩
      rw [TypeEntry.addProperty, OrderedMap.get?_insert, if_pos rfl]

end Recorded

section Changes

variable {cat : Catalog} {r r' : TypeRegistry} {t : TypeEntry} {n c : String}

theorem NamesPlain.of_keeps (h : NamesPlain r n) (hr : Keeps r r') : NamesPlain r' n := by
  obtain ⟨u, hu, hk⟩ := h
  obtain ⟨v, hv, e⟩ := hr.heads hu
  exact ⟨v, hv, fun hkind => hk ((TypeEntry.kind_of_head e).symm.trans hkind)⟩

theorem NamesPlain.put (h : NamesPlain r n) (ht : t.kind ≠ .nativeEnum) :
    NamesPlain (r.put t) n := by
  obtain ⟨u, hu, hk⟩ := h
  unfold NamesPlain
  rw [get?_put]
  split
  · exact ⟨t, rfl, ht⟩
  · exact ⟨u, hu, hk⟩

theorem Origin.mono (h : Origin cat r t) (hr : ∀ {n}, NamesPlain r n → NamesPlain r' n) :
    Origin cat r' t := by
  cases h with
  | base ht => exact .base ht
  | model hc hh hm => exact .model hc hh (hm.mono hr)
  | enumeration hc ht => exact .enumeration hc ht
  | list hh => exact .list hh

namespace Traced

theorem names_plain (h : Traced cat r) (hc : cat.classify c = .model)
    (hl : r.lookupSource c = some t) : NamesPlain r t.name := by
  obtain ⟨-, ht, hs⟩ := h.coherent.of_lookupSource hl
  refine ⟨t, ht, ?_⟩
  cases h.entries ht with
  | base hb => exact (BaseTypes.shared_of_mem hb).kind
  | model _ hh _ =>
    rw [TypeEntry.kind_of_head hh]
    nofun
  | @enumeration c' _ _ hc' he =>
    have hs' : t.source = some c' := (congrArg TypeEntry.source he :)
    obtain rfl := Option.some.inj (hs.symm.trans hs')
    rw [hc] at hc'
    cases hc'
  | list hh =>
    have hkind : t.kind = .interface := (congrArg TypeEntry.kind hh :)
    rw [hkind]
    nofun

theorem model_of_hasFactory (h : Traced cat r) (ht : r.get? n = some t)
    (hf : t.hasFactory = true) : ∃ className shape, cat.class? className = some shape ∧
      t.head = (bare t.name className shape).head ∧ Recorded r shape t := by
  cases h.entries ht with
  | base hb =>
    rw [(BaseTypes.shared_of_mem hb).hasFactory] at hf
    cases hf
  | @model className shape hc hh hm => exact ⟨className, shape, hc, hh, hm⟩
  | enumeration _ he =>
    rw [he] at hf
    cases hf
  | list hh =>
    have hnone : t.hasFactory = false := (congrArg TypeEntry.hasFactory hh :)
    rw [hnone] at hf
    cases hf

theorem hasFactory_of_persistent (h : Traced cat r) (ht : r.get? n = some t)
    (hp : t.persistent = true) : t.hasFactory = true := by
  cases h.entries ht with
  | base hb =>
    rw [(BaseTypes.shared_of_mem hb).persistent] at hp
    cases hp
  | model _ hh _ => exact TypeEntry.hasFactory_of_head hh
  | enumeration _ he =>
    rw [he] at hp
    cases hp
  | list hh =>
    have hplain : t.persistent = false := (congrArg TypeEntry.persistent hh :)
    rw [hplain] at hp
    cases hp

theorem of_change {t' : TypeEntry} (h : Traced cat r) (hchange : ChangesAt n t' r r')
    (hr : Coherent r') (hplain : ∀ {m}, NamesPlain r m → NamesPlain r' m)
    (horigin : Origin cat r' t') : Traced cat r' where
  coherent := hr
  item := hplain h.item
  entries := hchange.forall_entries (fun hu => (h.entries hu).mono hplain) horigin

theorem modify {name className : String} {shape : ClassDecl} {f : TypeEntry → TypeEntry}
    (h : Traced cat r) (ho : Opened cat r name className shape) (hf : ∀ t, (f t).head = t.head)
    (hrecorded : ∀ {t}, r.get? name = some t → Recorded r shape t → Recorded r shape (f t)) :
    Traced cat (r.modify name f) := by
  obtain ⟨t, ht, hh⟩ := ho.registered
  obtain ⟨c, shape', hc, hh', hm⟩ := h.model_of_hasFactory ht (congrArg TypeEntry.hasFactory hh :)
  have hplain : ∀ {m}, NamesPlain r m → NamesPlain (r.modify name f) m :=
    fun hm => hm.of_keeps (Keeps.modify hf)
  have hsource : className = c := by
    have := (TypeEntry.source_of_head hh).symm.trans (TypeEntry.source_of_head hh')
    exact Option.some.inj this
  subst hsource
  obtain rfl := Option.some.inj (ho.described.symm.trans hc)
  have hname : (f t).name = t.name := TypeEntry.name_of_head (hf t)
  exact h.of_change (.modify ht) (h.coherent.modify hf) hplain
    (.model hc (hname ▸ (hf t).trans hh') ((hrecorded ht hm).mono hplain))

theorem grow (h : Traced cat r) (hg : Growth cat r r') : Traced cat r' := by
  have hr := hg.coherent h.coherent
  cases hg with
  | @opened name className shape hc hl hn =>
    have hfree := h.coherent.resolveName_fresh hl hn
    have hkeeps : Keeps r (r.put (bare name className shape)) :=
      Keeps.of_extends (.put hl h.coherent rfl hfree)
    exact h.of_change (.put _ _) hr (fun hm => hm.of_keeps hkeeps) (.model hc rfl (.bare _ _))
  | @enumerated name className file shape _ hc hl hn _ =>
    have hfree := h.coherent.resolveName_fresh hl hn
    have hkeeps : Keeps r (r.put (nativeEnum name className file shape)) :=
      Keeps.of_extends (.put hl h.coherent rfl hfree)
    exact h.of_change (.put _ _) hr (fun hm => hm.of_keeps hkeeps) (.enumeration hc rfl)
  | @extended name className shape p ho hp =>
    obtain ⟨c, hc, hl⟩ := lookupSource_of_parentOf hp
    exact h.modify ho (head_withParent p) fun _ hm => hm.extend (h.names_plain hc hl)
  | addressed ho _ => exact h.modify ho head_withAddress fun _ hm => hm.extend h.item
  | filled ho _ _ hp hfresh =>
    refine h.modify ho (fun t => t.head_addProperty _) fun ht hm => hm.addProperty ?_
    intro hd
    rw [hp.sameField.name]
    exact hfresh hd _ ht
  | @listed entry _ resource e o d _ _ _ _ _ _ hfile _ _ =>
    have hhead := listType_head cat.config entry resource e o d
    rw [hfile] at hhead
    have hkind : (listType cat.config entry resource e o d).kind = .interface :=
      (congrArg TypeEntry.kind hhead :)
    have hname : listParamsName resource.name =
        (listType cat.config entry resource e o d).name := listType_name.symm
    rw [hname] at hhead
    exact h.of_change (.put _ _) hr (fun hm => hm.put (by rw [hkind]; nofun)) (.list hhead)

theorem grows (h : Traced cat r) (hg : Grows cat r r') : Traced cat r' := by
  induction hg with
  | refl => exact h
  | tail _ step ih => exact ih.grow step

end Traced

end Changes

end HydraClient
