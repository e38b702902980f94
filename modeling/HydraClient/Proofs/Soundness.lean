import HydraClient.Proofs.Extraction
import HydraClient.Proofs.ListTypes

/-! # Soundness of the registry

The invariant of a run. Every type is a base type, a class, an enum or an interface of query
parameters, and it imports what it refers to from the files that declare it. The invariant needs
that no described class goes by the name under which query parameters are registered, because such a
class would lose its place to them.
-/
namespace HydraClient

open Metadata TypeRegistry Model Operations

/-- No described class has the name of the query parameters of a served one. -/
def Catalog.Unshadowed (cat : Catalog) : Prop :=
  ∀ a ∈ cat.resources, cat.class? (listSource a) = none

theorem not_enumCandidate_listParamsName {source typeName : String} :
    listParamsName typeName ∉ enumCandidates (listSource source) := by
  intro h
  obtain ⟨init, last, hsegments, hlast⟩ :=
    ClassName.segments_append (s := "#list-params") (by decide) (by decide) source
  rw [enumCandidates, listSource, hsegments] at h
  have hsuffix := hlast.trans (suffix_of_mem_endings h)
  have hname : "ListParams".toList <:+ (listParamsName typeName).toList :=
    ⟨typeName.toList, by simp [listParamsName]⟩
  have := List.suffix_of_suffix_length_le hname hsuffix (by decide)
  exact absurd this (by decide)

structure ModelSound (r : TypeRegistry) (t : TypeEntry) : Prop where
  imports : ∀ {f n}, t.imports.Takes f n → r.Declares f n
  supers : ∀ s ∈ t.supers, r.Imported t.imports s
  properties : ∀ p ∈ t.properties.values, FieldSound r t.name p

structure ListSound (cat : Catalog) (r : TypeRegistry) (shape : ClassDecl) (typeName : String)
    (t : TypeEntry) : Prop where
  imports : ∀ {f n}, t.imports.Takes f n → r.Declares f n
  generic : r.Imported t.imports "ListParams"
  element : r.Imported t.imports typeName
  supers : t.supers = ["ListParams<" ++ typeName ++ ">"]
  properties : ∃ e ∈ shape.exposures, ∃ o ∈ e.operations, ∀ p ∈ t.properties.values,
    ∃ f : FilterField, p = f.toProperty ∧
      Composed (r.Imported t.imports) (Declared (cat.filtersOf o.filters)) f.union

/-- What a type is, and what holds of it for that. -/
inductive EntrySound (cat : Catalog) (r : TypeRegistry) (t : TypeEntry) : Prop where
  | base : t ∈ BaseTypes.all cat.config.hydraStart → EntrySound cat r t
  | model {className : String} {shape : ClassDecl} : cat.class? className = some shape →
      r.sources.get? className = some t.name → t.head = (bare t.name className shape).head →
      ModelSound r t → EntrySound cat r t
  | enumeration {className file : String} {shape : EnumDecl} : cat.enum? className = some shape →
      cat.classify className = .enumeration → t.name ∈ enumCandidates className → file ≠ "" →
      t = nativeEnum t.name className file shape → EntrySound cat r t
  | list {source typeName : String} {shape : ClassDecl} : source ∈ cat.resources →
      cat.class? source = some shape → r.sources.get? source = some typeName →
      t.head = {
        name := listParamsName typeName
        kind := .interface
        file := some ("endpoint/" ++ typeName)
        source := some (listSource source) } →
      ListSound cat r shape typeName t → EntrySound cat r t

structure Sound (cat : Catalog) (r : TypeRegistry) : Prop where
  coherent : Coherent r
  seeded : Seeded cat.config.hydraStart r
  entries : ∀ {n t}, r.get? n = some t → EntrySound cat r t

def KeepsSources (cat : Catalog) (r r' : TypeRegistry) : Prop :=
  ∀ {s n}, (cat.class? s).isSome = true → r.sources.get? s = some n → r'.sources.get? s = some n

section Keeping

variable {cat : Catalog} {r r' : TypeRegistry} {shape : ClassDecl} {typeName : String}
  {t : TypeEntry}

theorem ModelSound.of_keeps (h : ModelSound r t) (hr : Keeps r r') :
    ModelSound r' t where
  imports hi := (h.imports hi).of_keeps hr
  supers s hs := (h.supers s hs).of_keeps hr
  properties p hp := (h.properties p hp).of_keeps hr

theorem ListSound.of_keeps (h : ListSound cat r shape typeName t) (hr : Keeps r r') :
    ListSound cat r' shape typeName t where
  imports hi := (h.imports hi).of_keeps hr
  generic := h.generic.of_keeps hr
  element := h.element.of_keeps hr
  supers := h.supers
  properties := by
    obtain ⟨e, he, o, ho, hall⟩ := h.properties
    refine ⟨e, he, o, ho, fun p hp => ?_⟩
    obtain ⟨f, rfl, hf⟩ := hall p hp
    exact ⟨f, rfl, hf.mono fun _ hn => hn.of_keeps hr⟩

theorem EntrySound.of_keeps (h : EntrySound cat r t) (hr : Keeps r r')
    (hs : KeepsSources cat r r') : EntrySound cat r' t := by
  cases h with
  | base ht => exact .base ht
  | model hc hn hh hm => exact .model hc (hs (by simp [hc]) hn) hh (hm.of_keeps hr)
  | enumeration he hc hn hf ht => exact .enumeration he hc hn hf ht
  | list ha hc hsource hh hl =>
    exact .list ha hc (hs (by simp [hc]) hsource) hh (hl.of_keeps hr)

end Keeping

section Filling

variable {cat : Catalog} {r : TypeRegistry} {shape : ClassDecl} {t p : TypeEntry} {q : Property}

theorem ModelSound.bare (name className : String) : ModelSound r (bare name className shape) where
  imports h := absurd h (Imports.not_takes_empty _ _)
  supers := by simp [Model.bare]
  properties := by simp [Model.bare, OrderedMap.values, OrderedMap.empty]

theorem ModelSound.extend {u : TypeEntry} {file : Option String} {n : String}
    (h : ModelSound r t) (hu : r.get? n = some u) (hf : u.file = file) :
    ModelSound r ({ t with supers := t.supers ++ [n] }.addImport file n) := by
  have hname : ({ t with supers := t.supers ++ [n] }.addImport file n).name = t.name := rfl
  have hsupers : ({ t with supers := t.supers ++ [n] }.addImport file n).supers =
      t.supers ++ [n] := rfl
  have hproperties : ({ t with supers := t.supers ++ [n] }.addImport file n).properties =
      t.properties := rfl
  have grown : ∀ {f m}, t.imports.Takes f m →
      ({ t with supers := t.supers ++ [n] }.addImport file n).imports.Takes f m :=
    fun hi => TypeEntry.takes_addImport.2 (.inr hi)
  constructor
  case imports =>
    intro f m hi
    rcases TypeEntry.takes_addImport.1 hi with ⟨hfile, rfl⟩ | hi
    · exact ⟨u, hu, hf.trans hfile⟩
    · exact h.imports hi
  case supers =>
    intro s hs
    rw [hsupers] at hs
    rcases List.mem_append.1 hs with hs | hs
    · exact (h.supers s hs).mono grown
    · rw [List.mem_singleton.1 hs]
      exact ⟨u, hu, fun f hf' => TypeEntry.takes_addImport.2 (.inl ⟨hf.symm.trans hf', rfl⟩)⟩
  case properties =>
    rw [hproperties, hname]
    exact h.properties

theorem ModelSound.addProperty (h : ModelSound r t) (hq : FieldSound r t.name q) :
    ModelSound r (t.addProperty q) := by
  have grown : ∀ {f m}, t.imports.Takes f m → (t.addProperty q).imports.Takes f m :=
    fun hi => Imports.takes_merge.2 (.inl hi)
  constructor
  case imports =>
    intro f m hi
    rcases Imports.takes_merge.1 hi with hi | hi
    · exact h.imports hi
    · exact hq.imports (TypeEntry.takes_of_takes_importsOf hi)
  case supers => exact fun s hs => (h.supers s hs).mono grown
  case properties =>
    intro p hp
    rcases OrderedMap.mem_values_insert hp with rfl | hp
    · exact hq
    · exact h.properties p hp

theorem mem_listProperties {fields : FilterFields} (hq : q ∈ (listProperties fields).values) :
    ∃ f ∈ fields.values, q = f.toProperty := by
  obtain ⟨k, hk⟩ := OrderedMap.mem_values_iff.1 hq
  obtain ⟨f, hf, e⟩ := List.mem_map.1 (OrderedMap.mem_of_get?_ofList hk)
  exact ⟨f, hf, (Prod.mk.inj e).2.symm⟩

theorem ListSound.listType {hydra : String} {entry : EndpointEntry} {resource : TypeEntry}
    {e : Exposure} {o : Operation} {d : Derivation} (hs : Searchable hydra r resource)
    (hres : r.get? resource.name = some resource) (he : e ∈ shape.exposures)
    (ho : o ∈ e.operations)
    (hd : Yields (deriveFields cat r resource o)
      ⟨(pagingFields cat.config e o).1, (listBase cat.config entry resource e o).imports⟩ ⟨⟩ d) :
    ListSound cat r shape resource.name (listType cat.config entry resource e o d) := by
  have hbase : Filter.Ready hydra r resource (Declared (cat.filtersOf o.filters))
      ⟨(pagingFields cat.config e o).1, (listBase cat.config entry resource e o).imports⟩ :=
    ⟨gathered_listBase hs.seeded hres, resource, hres,
      fun f hf => takes_listBase.2 (.inr (.inl ⟨hf, rfl⟩))⟩
  have hmore := gathers_deriveFields hs hbase hd
  have hgeneric : r.Imported
      (listBase cat.config entry resource e o).imports "ListParams" :=
    (hs.seeded.declares_envelope (by simp [BaseTypes.names_envelopes])).imported
      (takes_listBase.2 (.inr (.inr ⟨rfl, rfl⟩)))
  exact {
    imports := hmore.gathered.imports
    generic := hmore.imported hgeneric
    element := hmore.imported hbase.own
    supers := listBase_supers
    properties := ⟨e, he, o, ho, fun p hp => by
      obtain ⟨f, hf, rfl⟩ := mem_listProperties hp
      exact ⟨f, rfl, hmore.gathered.fields f hf⟩⟩ }

end Filling

namespace Sound

variable {cat : Catalog} {r r' : TypeRegistry} {t : TypeEntry} {n : String}

theorem filed (h : Sound cat r) : Filed r := fun {n t} ht => by
  cases h.entries ht with
  | base hb => exact (BaseTypes.shared_of_mem hb).filed
  | model _ _ hh _ =>
    refine .inr ((TypeEntry.isRendered_of_head hh).trans ?_)
    simp [TypeEntry.isRendered, bare, isNonempty]
  | enumeration _ _ _ hf he =>
    rw [he]
    exact .inr (by simp [TypeEntry.isRendered, nativeEnum, isNonempty, hf])
  | list _ _ _ hh _ =>
    have : t.isRendered = t.head.isRendered := rfl
    rw [this, hh]
    exact .inr (by simp [TypeEntry.isRendered, isNonempty])

theorem model_of_opened {name className : String} {shape : ClassDecl} (h : Sound cat r)
    (ho : Opened cat r name className shape) :
    ∃ t, r.get? name = some t ∧ t.name = name ∧ t.head = (bare name className shape).head ∧
      ModelSound r t := by
  obtain ⟨t, ht, hh⟩ := ho.registered
  refine ⟨t, ht, h.coherent.named ht, hh, ?_⟩
  have hfactory : t.hasFactory = true := (congrArg TypeEntry.hasFactory hh :)
  have hkind : t.kind = .interface := TypeEntry.kind_of_head hh
  have hsource : t.source = some className := TypeEntry.source_of_head hh
  cases h.entries ht with
  | base hb =>
    rw [(BaseTypes.shared_of_mem hb).hasFactory] at hfactory
    cases hfactory
  | @model c shape' hc _ hh' hm =>
    have hsource' : t.source = some c := TypeEntry.source_of_head hh'
    obtain rfl := Option.some.inj (hsource.symm.trans hsource')
    obtain rfl := Option.some.inj (ho.described.symm.trans hc)
    exact hm
  | enumeration _ _ _ _ he =>
    rw [he] at hkind
    cases hkind
  | list _ _ _ hh' _ =>
    have : t.hasFactory = false := (congrArg TypeEntry.hasFactory hh' :)
    rw [this] at hfactory
    cases hfactory

theorem owns_of_opened {name className : String} {shape : ClassDecl} (h : Sound cat r)
    (ho : Opened cat r name className shape) : Owns r name (some className) := by
  intro c t hc hl
  obtain rfl := Option.some.inj hc
  have hn := (h.coherent.of_lookupSource hl).1
  exact Option.some.inj (hn.symm.trans ho.indexed)

theorem of_change {t' : TypeEntry} (h : Sound cat r) (hchange : ChangesAt n t' r r')
    (hr : Coherent r') (hkeeps : Keeps r r') (hsources : KeepsSources cat r r')
    (hsound : EntrySound cat r' t') : Sound cat r' where
  coherent := hr
  seeded := h.seeded.of_keeps hkeeps
  entries := hchange.forall_entries (fun hu => (h.entries hu).of_keeps hkeeps hsources) hsound

theorem modify {name className : String} {shape : ClassDecl} {f : TypeEntry → TypeEntry}
    (h : Sound cat r) (ho : Opened cat r name className shape) (hf : ∀ t, (f t).head = t.head)
    (hsound : ∀ {r' t}, Keeps r r' → r.get? name = some t → t.name = name →
      ModelSound r' t → ModelSound r' (f t)) : Sound cat (r.modify name f) := by
  obtain ⟨t, ht, hname, hh, hm⟩ := h.model_of_opened ho
  have hkeeps : Keeps r (r.modify name f) := Keeps.modify hf
  have hname' : (f t).name = name := (TypeEntry.name_of_head (hf t)).trans hname
  refine h.of_change (.modify ht) (h.coherent.modify hf) hkeeps (fun _ => id) ?_
  exact .model ho.described (ho.indexed.trans (congrArg some hname'.symm))
    (hname' ▸ (hf t).trans hh) (hsound hkeeps ht hname (hm.of_keeps hkeeps))

theorem put {s : String} (h : Sound cat r) (hl : r.lookupSource s = none)
    (hn : r.get? t.name = none) (ht : t.source = some s)
    (hsound : EntrySound cat (r.put t) t) : Sound cat (r.put t) := by
  have hextends := Extends.put hl h.coherent ht hn
  exact h.of_change (.put r t) (h.coherent.put ht (by simp [hn])) (Keeps.of_extends hextends)
    (fun _ => hextends.sources) hsound

/-- Query parameters that were registered before belong to the same class, so they had the same
head; nothing else goes by their source. -/
theorem head_of_listed {source typeName : String} {held : TypeEntry} (h : Sound cat r)
    (hu : cat.Unshadowed) (ha : source ∈ cat.resources)
    (hsource : r.sources.get? source = some typeName)
    (hheld : r.get? (listParamsName typeName) = some held)
    (hs : held.source = some (listSource source)) : held.head = {
      name := listParamsName typeName
      kind := .interface
      file := some ("endpoint/" ++ typeName)
      source := some (listSource source) } := by
  cases h.entries hheld with
  | base hb =>
    obtain ⟨s, hs', -, hmark⟩ := BaseTypes.source_of_mem hb
    obtain rfl := Option.some.inj (hs.symm.trans hs')
    simp [listSource] at hmark
  | @model c _ hc _ hh _ =>
    have hs' : held.source = some c := TypeEntry.source_of_head hh
    obtain rfl := Option.some.inj (hs.symm.trans hs')
    rw [hu source ha] at hc
    cases hc
  | @enumeration c _ _ _ _ hn _ he =>
    have hs' : held.source = some c := (congrArg TypeEntry.source he :)
    obtain rfl := Option.some.inj (hs.symm.trans hs')
    rw [h.coherent.named hheld] at hn
    exact absurd hn not_enumCandidate_listParamsName
  | @list a typeName' _ ha' _ hsource' hh _ =>
    have hs' : held.source = some (listSource a) := (congrArg TypeEntry.source hh :)
    have hlist : listSource source = listSource a := Option.some.inj (hs.symm.trans hs')
    obtain rfl : source = a := (String.append_left_inj _).1 hlist
    obtain rfl := Option.some.inj (hsource.symm.trans hsource')
    exact hh

theorem model_of_source {c : String} {shape : ClassDecl} (h : Sound cat r) (hu : cat.Unshadowed)
    (hc : cat.class? c = some shape)
    (hbase : ∀ b ∈ BaseTypes.all cat.config.hydraStart, b.source ≠ some c)
    (ht : r.get? n = some t) (hs : t.source = some c) :
    r.sources.get? c = some t.name ∧ t.head = (bare t.name c shape).head := by
  cases h.entries ht with
  | base hb => exact absurd hs (hbase t hb)
  | @model c' shape' hc' hn hh _ =>
    have hs' : t.source = some c' := TypeEntry.source_of_head hh
    obtain rfl := Option.some.inj (hs.symm.trans hs')
    obtain rfl := Option.some.inj (hc.symm.trans hc')
    exact ⟨hn, hh⟩
  | @enumeration c' _ _ _ hkind _ _ he =>
    have hs' : t.source = some c' := (congrArg TypeEntry.source he :)
    obtain rfl := Option.some.inj (hs.symm.trans hs')
    rw [Catalog.classify_eq_model_iff.2 ⟨shape, hc⟩] at hkind
    cases hkind
  | @list a _ _ ha _ _ hh _ =>
    have hs' : t.source = some (listSource a) := (congrArg TypeEntry.source hh :)
    obtain rfl := Option.some.inj (hs.symm.trans hs')
    rw [hu a ha] at hc
    cases hc

theorem plain_or_sound (h : Sound cat r) (ht : r.get? t.name = some t) :
    ∀ p ∈ t.properties.values, FieldSound r t.name p ∨ Plain p := by
  intro p hp
  cases h.entries ht with
  | base hb => exact .inr ((BaseTypes.shared_of_mem hb).properties p hp)
  | model _ _ _ hm => exact .inl (hm.properties p hp)
  | enumeration _ _ _ _ he =>
    rw [he] at hp
    simp [nativeEnum, OrderedMap.values, OrderedMap.empty] at hp
  | list _ _ _ _ hl =>
    obtain ⟨e, -, o, -, hall⟩ := hl.properties
    obtain ⟨f, rfl, -⟩ := hall p hp
    exact .inr ⟨Imports.not_takes_empty _ _, rfl, rfl, rfl⟩

/-- Types keep their heads, since only query parameters are ever registered again. -/
theorem keeps_of_growth (h : Sound cat r) (hu : cat.Unshadowed) (hg : Growth cat r r') :
    Keeps r r' := by
  cases hg with
  | opened _ hl hn =>
    exact Keeps.of_extends (.put hl h.coherent rfl (h.coherent.resolveName_fresh hl hn))
  | enumerated _ _ hl hn _ =>
    exact Keeps.of_extends (.put hl h.coherent rfl (h.coherent.resolveName_fresh hl hn))
  | extended => exact Keeps.modify (head_withParent _)
  | addressed => exact Keeps.modify head_withAddress
  | filled => exact Keeps.modify fun t => t.head_addProperty _
  | @listed entry _ resource e o d ha _ _ _ hl _ hfile _ hheld =>
    have hhead := listType_head cat.config entry resource e o d
    rw [hfile] at hhead
    refine Keeps.put ?_
    intro held hh
    rw [listType_name] at hh
    rw [hhead, h.head_of_listed hu ha (h.coherent.of_lookupSource hl).1 hh (hheld held hh)]

theorem grow (h : Sound cat r) (hu : cat.Unshadowed) (hg : Growth cat r r') : Sound cat r' := by
  have hkeeps := h.keeps_of_growth hu hg
  have hcoherent := hg.coherent h.coherent
  cases hg with
  | @opened name className shape hc hl hn =>
    have hfree := h.coherent.resolveName_fresh hl hn
    have hindexed : (r.put (bare name className shape)).sources.get? className = some name := by
      rw [sources_put rfl, OrderedMap.get?_insert, if_pos rfl]
      rfl
    exact h.put hl hfree rfl (.model hc hindexed rfl (.bare name className))
  | @enumerated name className file shape he hc hl hn hf =>
    have hfree := h.coherent.resolveName_fresh hl hn
    exact h.put hl hfree rfl (.enumeration he hc (resolveName_ok hn).1 hf.ne_empty rfl)
  | @extended name className shape p ho hp =>
    obtain ⟨c, -, hl⟩ := lookupSource_of_parentOf hp
    have hget := (h.coherent.of_lookupSource hl).2.1
    refine h.modify ho (head_withParent p) ?_
    intro r₁ t hr _ _ hm
    obtain ⟨u, hu, e⟩ := hr.heads hget
    exact hm.extend hu (TypeEntry.file_of_head e)
  | addressed ho _ =>
    refine h.modify ho head_withAddress ?_
    intro r₁ t hr _ _ hm
    obtain ⟨u, hu, hf⟩ := (h.seeded.of_keeps hr).declares_envelope (n := "HydraItem")
      (by simp [BaseTypes.names_envelopes])
    exact hm.extend hu hf
  | filled ho _ _ hp _ =>
    have hbuilt := FieldSound.built h.seeded h.coherent (h.owns_of_opened ho) hp
    refine h.modify ho (fun t => t.head_addProperty _) ?_
    intro r₁ t hr _ hname hm
    exact hm.addProperty (hname ▸ hbuilt.of_keeps hr)
  | @listed entry shape resource e o d ha hc he ho hl hname hfile hd _ =>
    obtain ⟨hsource, hres, -⟩ := h.coherent.of_lookupSource hl
    have hdescribed : (cat.class? entry.source).isSome = true := by simp [hc]
    have hhead := listType_head cat.config entry resource e o d
    rw [hfile] at hhead
    -- The source of query parameters is that of no described class, by the hypothesis.
    have hsources : KeepsSources cat r (r.put (listType cat.config entry resource e o d)) := by
      intro s m hs hm
      have hne : s ≠ listSource entry.source := fun e => by
        rw [e, hu entry.source ha] at hs
        cases hs
      rwa [sources_put listType_source, OrderedMap.get?_insert, if_neg hne]
    have hsearch : Searchable cat.config.hydraStart r resource :=
      ⟨h.seeded, h.filed, h.plain_or_sound hres⟩
    have hsound := (ListSound.listType hsearch hres he ho hd).of_keeps hkeeps
    exact h.of_change (.put _ _) hcoherent hkeeps hsources
      (.list ha hc (hsources hdescribed hsource) hhead hsound)

theorem grows (h : Sound cat r) (hu : cat.Unshadowed) (hg : Grows cat r r') : Sound cat r' := by
  induction hg with
  | refl => exact h
  | tail _ step ih => exact ih.grow hu step

theorem keeps (h : Sound cat r) (hu : cat.Unshadowed) (hg : Grows cat r r') : Keeps r r' := by
  induction hg with
  | refl => exact Keeps.refl r
  | tail hg step ih => exact Keeps.trans ih ((h.grows hu hg).keeps_of_growth hu step)

end Sound

end HydraClient
