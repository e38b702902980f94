import HydraClient.Proofs.Generation

/-! # Imports of produced files

A produced file imports only what another produced file exports, apart from the helpers that are
loaded at run time and the router. Class names must not carry the marks that set the sources of base
types and of query parameters apart.
-/
namespace HydraClient

open Metadata TypeRegistry Operations

/-- No name of a described class has the mark of base types or of query parameters. -/
def Metadata.Document.Unmarked (doc : Document) : Prop :=
  ∀ c ∈ doc.classes, '@' ∉ c.className.toList ∧ '#' ∉ c.className.toList

theorem ClassName.mem_relative {c : String} {x : Char} (hx : x ∈ c.toList) (hne : x ≠ '\\') :
    x ∈ (ClassName.relative c).toList := by
  rw [ClassName.relative, String.toList_ofList]
  rw [← List.takeWhile_append_dropWhile (p := (· == '\\')) (l := c.toList)] at hx
  rcases List.mem_append.1 hx with hx | hx
  · have := List.all_eq_true.1 List.all_takeWhile _ hx
    exact absurd (by simpa using this) hne
  · exact hx

namespace Metadata.Document.Unmarked

variable {doc : Document} {c : String} {shape : ClassDecl}

theorem of_class? (h : doc.Unmarked) (hc : (Catalog.ofDocument doc).class? c = some shape) :
    '@' ∉ c.toList ∧ '#' ∉ c.toList := by
  obtain ⟨hmem, hname⟩ := Catalog.mem_classes_of_class? hc
  have hmarks := h shape hmem
  rw [hname] at hmarks
  constructor
  · exact fun hx => hmarks.1 (ClassName.mem_relative hx (by decide))
  · exact fun hx => hmarks.2 (ClassName.mem_relative hx (by decide))

theorem unshadowed (h : doc.Unmarked) : (Catalog.ofDocument doc).Unshadowed := by
  intro a _
  cases hc : (Catalog.ofDocument doc).class? (listSource a) with
  | none => rfl
  | some shape =>
    have hmark : '#' ∈ (listSource a).toList := by
      simp [listSource, String.toList_append]
    exact absurd hmark (h.of_class? hc).2

end Metadata.Document.Unmarked

namespace Sound

variable {cat : Catalog} {r : TypeRegistry} {t : TypeEntry} {c n : String} {shape : ClassDecl}

theorem isShaped (h : Sound cat r) (ht : r.get? n = some t) (hp : t.persistent = true) :
    Payload.isShaped t = true := by
  cases h.entries ht with
  | base hb =>
    rw [(BaseTypes.shared_of_mem hb).persistent] at hp
    cases hp
  | model _ _ hh _ =>
    have hkind : t.kind = .interface := TypeEntry.kind_of_head hh
    have hrendered : t.isRendered = true := by
      refine (TypeEntry.isRendered_of_head hh).trans ?_
      simp [TypeEntry.isRendered, Model.bare, isNonempty]
    simp [Payload.isShaped, hkind, hp, hrendered]
  | enumeration _ _ _ _ he =>
    rw [he] at hp
    cases hp
  | list _ _ _ hh _ =>
    have : t.persistent = false := (congrArg TypeEntry.persistent hh :)
    rw [this] at hp
    cases hp

theorem declares (h : Sound cat r) (ht : r.get? n = some t) {file m : String}
    (hi : t.imports.Takes file m) : r.Declares file m := by
  cases h.entries ht with
  | base hb =>
    obtain ⟨rfl, hm⟩ := (BaseTypes.shared_of_mem hb).imports hi
    exact h.seeded.declares_shared hm
  | model _ _ _ hm => exact hm.imports hi
  | enumeration _ _ _ _ he =>
    rw [he] at hi
    exact absurd hi (Imports.not_takes_empty _ _)
  | list _ _ _ _ hl => exact hl.imports hi

end Sound

structure EntryOf (cat : Catalog) (d : Draft) (c : String) (e : EndpointEntry)
    (resource : TypeEntry) : Prop where
  described : ∃ shape, cat.class? c = some shape
  found : d.types.lookupSource c = some resource
  bindings : ∀ {k b}, e.bindings.get? k = some b → b.name = resource.name

theorem EndpointEntry.binding_of_iriKey {e : EndpointEntry} {k : String} (h : e.iriKey = some k) :
    ∃ b c, e.bindings.get? k = some b ∧ b.iriCall = some c := by
  obtain ⟨⟨k', b⟩, hfind, hk⟩ := Option.map_eq_some_iff.1 h
  obtain rfl : k' = k := hk
  have hcall : b.iriCall.isSome = true := by simpa using List.find?_some hfind
  obtain ⟨c, hc⟩ := Option.isSome_iff_exists.1 hcall
  exact ⟨b, c, OrderedMap.mem_entries_iff.1 (List.mem_of_find?_eq_some hfind), hc⟩

theorem Binding.isExposed_of_iriCall {b : Binding} {c : Call} (h : b.iriCall = some c) :
    b.isExposed = true := by
  have hne : b.calls.values ≠ [] := by
    intro hnone
    rw [iriCall, hnone] at h
    cases h
  rw [isExposed, Bool.not_eq_true', OrderedMap.isEmpty, List.isEmpty_eq_false_iff]
  intro hnone
  exact hne (by rw [OrderedMap.values, hnone]; rfl)

section Draft

variable {cat : Catalog} {disk : Disk} {seeded modeled served d₀ d : Draft} {c : String}
  {e : EndpointEntry} {file n : String}

theorem Operations.Served.lookupSource {r₀ r : TypeRegistry} {shape : ClassDecl}
    {resource : TypeEntry} (h : Served cat r₀ r c shape resource e) (hu : cat.Unshadowed) :
    r.lookupSource c = some resource := by
  refine h.found fun a ha hsource => ?_
  have hdescribed := h.described
  rw [hsource, hu a ha] at hdescribed
  cases hdescribed

theorem Phased.entryOf (h : Phased cat disk seeded modeled served d) (hu : cat.Unshadowed)
    (he : d.operations.get? c = some e) : ∃ resource, EntryOf cat d c e resource := by
  obtain ⟨shape, resource, x, hserved, hcore⟩ := h.served_entry he
  refine ⟨resource, ⟨shape, hserved.described⟩, hserved.lookupSource hu, fun {k b} hb => ?_⟩
  obtain ⟨b', hb', hbinding⟩ := EndpointEntry.binding_of_core hcore.symm hb
  have hname : b.name = b'.name := (congrArg Binding.name hbinding :)
  rw [hname, (hserved.holds.bindings hb').2]

theorem Rendered.exported_of_endpoint {body : String} {i : Imports} (hr : Rendered cat disk d₀ d)
    (he : d.operations.get? c = some e) (hendpoint : Render.endpoint? e = some (body, i))
    (hexports : Exports body n) : d.files.Exported e.file n := by
  have hmem : e ∈ d.operations.values := OrderedMap.mem_values_iff.2 ⟨c, he⟩
  have hfragment := hr.fragments.2 (.endpoint ⟨e, hmem, body, i, hendpoint, rfl, rfl⟩)
  exact FileSet.exported_of_fragment hfragment hexports

variable (hp : Phased cat disk seeded modeled served d₀) (hr : Rendered cat disk d₀ d)
include hp hr

theorem binding_of_offer {o : Linking.Offer} (ho : o ∈ Linking.offers served.operations) :
    ∃ c e k b, d.operations.get? c = some e ∧ e.bindings.get? k = some b ∧ b.isExposed = true ∧
      o.file = e.file ∧ o.child.symbol = b.symbol := by
  obtain ⟨e₀, he₀, b₀, hb₀, hexposed, hfile, -, hsymbol⟩ := Linking.offered_by ho
  obtain ⟨c, hc⟩ := OrderedMap.mem_values_iff.1 he₀
  obtain ⟨k, hk⟩ := OrderedMap.mem_values_iff.1 hb₀
  have hcores := hp.linked.cores c
  rw [hc, ← hr.operations] at hcores
  obtain ⟨e, he, hcore⟩ := Option.map_eq_some_iff.1 hcores
  obtain ⟨b, hb, hbinding⟩ := EndpointEntry.binding_of_core hcore.symm hk
  have hname : b₀.symbol = b.symbol := (congrArg Binding.symbol hbinding :)
  have hcalls : b₀.calls = b.calls := (congrArg Binding.calls hbinding :)
  refine ⟨c, e, k, b, he, hb, by rwa [Binding.isExposed, ← hcalls], ?_, hsymbol.trans hname⟩
  rw [hfile, ← EndpointEntry.file_of_core hcore]

theorem exported_offer {o : Linking.Offer} (ho : o ∈ Linking.offers served.operations) :
    d.files.Exported o.file o.child.symbol := by
  obtain ⟨c, e, k, b, he, hb, hexposed, hfile, hsymbol⟩ := binding_of_offer hp hr ho
  obtain ⟨body, i, hendpoint⟩ := Render.endpoint?_of_exposed hb hexposed
  rw [hfile, hsymbol]
  exact hr.exported_of_endpoint he hendpoint (Render.exports_symbol hendpoint hb hexposed)

omit hp in
theorem exported_iri {resource : TypeEntry} (he : d.operations.get? c = some e)
    (hentry : EntryOf cat d₀ c e resource) (hiri : e.iriKey.isSome = true) :
    d.files.Exported e.file (Payload.iriFunction resource.name) := by
  obtain ⟨k, hk⟩ := Option.isSome_iff_exists.1 hiri
  obtain ⟨b, call, hb, hcall⟩ := EndpointEntry.binding_of_iriKey hk
  have hexposed := Binding.isExposed_of_iriCall hcall
  have hat : Render.iriCallAt e k b = some call := by rw [Render.iriCallAt, if_pos hk, hcall]
  obtain ⟨body, i, hendpoint⟩ := Render.endpoint?_of_exposed hb hexposed
  rw [← hentry.bindings hb]
  exact hr.exported_of_endpoint he hendpoint (Render.exports_iri hendpoint hb hexposed hat)

theorem exported_generateIri : d.files.Exported BaseTypes.apiTypesFile "generateIri" := by
  obtain ⟨-, -, helper, hhelper, -⟩ := BaseTypes.yields_seed hp.seed
  refine FileSet.exported_of_fragment (f := { body := BaseTypes.iriFunction })
    (hr.fragments.2 (.seed hhelper ?_)) BaseTypes.exports_iriFunction
  cases helper <;> simp [BaseTypes.seededFiles]

end Draft

section Document

variable {doc : Document} {disk : Disk} {seeded modeled served d₀ d : Draft} {c : String}
  {e : EndpointEntry} {file target n : String}

theorem EntryOf.head (hs : Sound (.ofDocument doc) d.types) (hm : doc.Unmarked)
    {resource : TypeEntry} (h : EntryOf (.ofDocument doc) d c e resource) {t : TypeEntry}
    (ht : d.types.get? n = some t) (hsource : t.source = some c) :
    t.name = resource.name ∧ t.file = some ("interfaces/" ++ resource.name) := by
  obtain ⟨shape, hc⟩ := h.described
  have hbase : ∀ b ∈ BaseTypes.all doc.config.hydraStart, b.source ≠ some c := by
    intro b hb hs'
    obtain ⟨s, hs, hmark, -⟩ := BaseTypes.source_of_mem hb
    obtain rfl := Option.some.inj (hs.symm.trans hs')
    exact (hm.of_class? hc).1 hmark
  obtain ⟨hn, hh⟩ := hs.model_of_source hm.unshadowed hc hbase ht hsource
  obtain ⟨hresource, -, -⟩ := hs.coherent.of_lookupSource h.found
  have hname : t.name = resource.name := Option.some.inj (hn.symm.trans hresource)
  refine ⟨hname, ?_⟩
  rw [TypeEntry.file_of_head hh, ← hname]
  rfl

variable (hp : Phased (.ofDocument doc) disk seeded modeled served d₀)
  (hr : Rendered (.ofDocument doc) disk d₀ d) (hm : doc.Unmarked)
include hp hr hm

theorem exported_declared (hd : d.types.Declares file n) : d.files.Exported file n := by
  have hs := hr.sound (hp.sound hm.unshadowed)
  exact hr.exported_of_declares hs.filed hd hs.coherent

theorem declares_of_binding {k : String} {b : Binding} (he : d.operations.get? c = some e)
    (hb : e.bindings.get? k = some b) : d.types.Declares ("interfaces/" ++ b.name) b.name := by
  rw [hr.operations] at he
  obtain ⟨resource, hentry⟩ := hp.entryOf hm.unshadowed he
  have hs := hp.sound hm.unshadowed
  obtain ⟨-, hget, hsource⟩ := hs.coherent.of_lookupSource hentry.found
  obtain ⟨-, hfile⟩ := hentry.head hs hm hget hsource
  rw [hentry.bindings hb, hr.types]
  exact ⟨resource, hget, hfile⟩

/-- What stands among the imports of an entry is a type or the endpoint of a child. -/
theorem exported_of_entry (he : d.operations.get? c = some e) (hi : e.imports.Takes target n) :
    d.files.Exported target n := by
  rw [hr.operations] at he
  rcases hp.linked.imports he hi with ⟨e₀, he₀, hi⟩ | ⟨o, ho, rfl, rfl⟩
  · obtain ⟨-, shape, resource, hserved⟩ := hp.bound.entries he₀
    have hd := (hserved.holds.imports hi).declares (hp.sound_modeled hm.unshadowed) hm.unshadowed
    rw [← hp.types_eq, ← hr.types] at hd
    exact exported_declared hp hr hm hd
  · exact exported_offer hp hr ho

theorem exported_of_endpoint {body : String} {i : Imports} (he : d.operations.get? c = some e)
    (hendpoint : Render.endpoint? e = some (body, i)) (hi : i.Takes target n)
    (hmethods : target ≠ BaseTypes.apiMethodsFile) : d.files.Exported target n := by
  rcases (Render.takes_endpoint hendpoint).1 hi with ⟨h, -⟩ | h | ⟨k, b, hb, -, -, h | ⟨rfl, rfl⟩⟩
  · exact absurd h hmethods
  · exact exported_of_entry hp hr hm he h
  · obtain ⟨rfl, rfl | rfl⟩ := h
    · have hs := hr.sound (hp.sound hm.unshadowed)
      exact exported_declared hp hr hm hs.seeded.declares_hydraIri
    · exact exported_generateIri hp hr
  · -- The function for identifiers speaks of the interface of the class.
    exact exported_declared hp hr hm (declares_of_binding hp hr hm he hb)

theorem exported_of_payload {t : TypeEntry} (hi : (Payload.render d t).2.Takes target n) :
    d.files.Exported target n := by
  obtain ⟨p, -, converter, hconverter, rfl, rfl⟩ := Payload.takes_render.1 hi
  obtain ⟨u, file, hu, hfile, h⟩ := Payload.converter?_some hconverter
  have hs := hr.sound (hp.sound hm.unshadowed)
  rcases h with ⟨s, e, hsource, he, -, hiri, rfl⟩ | ⟨hpersistent, rfl⟩
  · have he₀ := he
    rw [hr.operations] at he₀
    obtain ⟨resource, hentry⟩ := hp.entryOf hm.unshadowed he₀
    rw [hr.types] at hu hs
    obtain ⟨hname, -⟩ := hentry.head hs hm hu hsource
    rw [hname]
    exact exported_iri hr he hentry hiri
  · refine FileSet.exported_of_fragment (f := Payload.fragment d u)
      (hr.fragments.2 (.payload ⟨u, List.mem_filter.2 ⟨?_, hs.isShaped hu hpersistent⟩, ?_, rfl⟩))
      Payload.exports_render
    · exact TypeRegistry.mem_toList.2 ⟨_, hu⟩
    · rw [hfile, Option.getD_some]

end Document

/-- Every import of a produced file is an export of the file it is taken from. -/
theorem imports_exported {doc : Document} {disk : Disk} {d : Draft} {file target n : String}
    (h : Generates doc disk d) (hm : doc.Unmarked) (hi : d.files.ImportsFrom file target n)
    (hmethods : target ≠ BaseTypes.apiMethodsFile) (hrouter : target ≠ Routes.routerFile) :
    d.files.Exported target n := by
  obtain ⟨seeded, modeled, served, hp, hr⟩ := h.rendered
  obtain ⟨f, hf, htakes⟩ := SourceFile.takes_importsOf.1 hi.2
  -- The import stands in one of the fragments that make up the file.
  cases hr.fragments.1 hf with
  | seed _ hf =>
    rw [BaseTypes.imports_of_seeded hf] at htakes
    exact absurd htakes (Imports.not_takes_empty _ _)
  | payload hf =>
    obtain ⟨t, -, -, rfl⟩ := hf
    exact exported_of_payload hp hr hm htakes
  | types hf =>
    obtain ⟨⟨_, group⟩, hgroup, -, hfragment⟩ := hf
    obtain ⟨t, ht, hi⟩ := (Render.takes_typeFragment hfragment).1 htakes
    have hbyFile := OrderedMap.mem_entries_iff.1 hgroup
    obtain ⟨hmem, -, -⟩ := TypeRegistry.mem_byFile.1 (by rw [hbyFile]; exact ht)
    obtain ⟨m, hm'⟩ := TypeRegistry.mem_toList.1 hmem
    have hs := hp.sound hm.unshadowed
    rw [← hr.types] at hs
    exact exported_declared hp hr hm (hs.declares hm' hi)
  | endpoint hf =>
    obtain ⟨e, he, body, i, hendpoint, -, rfl⟩ := hf
    obtain ⟨c, hc⟩ := OrderedMap.mem_values_iff.1 he
    exact exported_of_endpoint hp hr hm hc hendpoint htakes hmethods
  | routes _ hf =>
    obtain ⟨lines, -, hfragment, -⟩ := hf
    unfold Routes.fragment? at hfragment
    split at hfragment
    · cases hfragment
    · obtain rfl := Option.some.inj hfragment
      simp only [Imports.takes_add, Imports.not_takes_empty, or_false] at htakes
      rcases htakes with ⟨h, -⟩ | ⟨h, -⟩ <;> exact absurd h hrouter

def authorDecl : ClassDecl where
  className := "App\\Entity\\Author"
  persistent := true
  exposures := [{ shortName := "Author", operations := [{ type := some "Get" }] }]

def articleDecl : ClassDecl where
  className := "App\\Entity\\Article"
  persistent := true
  fields := [{
    name := "author"
    types := [{ builtin := "object", className := some "App\\Entity\\Author" }] }]
  exposures := [{ shortName := "Article", operations := [{ type := some "Get" }] }]

/-- The payload helper of an article turns its author into an identifier. -/
def press : Document where
  classes := [articleDecl, authorDecl]

theorem exists_generates_press : ∃ d, Generates press {} d := by
  have hextracts : Extracts (.ofDocument press) {} (extraction (.ofDocument press) {}) :=
    extracts_extraction (by decide +kernel)
  refine exists_generates (by decide +kernel) hextracts ?_ fun _ => by decide +kernel
  decide +kernel

theorem article_imports_exported : press.Unmarked ∧ ∃ d, Generates press {} d ∧
    d.files.ImportsFrom "interfaces/Article" "endpoint/Author" "generateAuthorIri" ∧
      d.files.Exported "endpoint/Author" "generateAuthorIri" := by
  have hm : press.Unmarked := by
    unfold Document.Unmarked
    decide
  obtain ⟨d, hd⟩ := exists_generates_press
  obtain ⟨seeded, modeled, served, -, hr⟩ := hd.rendered
  have htakes : ∃ t ∈ (extraction (.ofDocument press) {}).types.toList.filter Payload.isShaped,
      t.file = some "interfaces/Article" ∧
        (Payload.render (extraction (.ofDocument press) {}) t).2.Takes
          "endpoint/Author" "generateAuthorIri" := by decide +kernel
  obtain ⟨t, ht, hfile, htakes⟩ := htakes
  have himports := hr.imports_of_payload ht hfile htakes (by decide)
  exact ⟨hm, d, hd, himports,
    imports_exported hd hm himports (by decide) (by decide)⟩

end HydraClient
