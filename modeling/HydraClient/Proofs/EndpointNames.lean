import HydraClient.Proofs.EndpointScopes
import Mathlib.Data.List.Lattice
import Mathlib.Data.List.Nodup
import Mathlib.Data.List.Pairwise

/-! # Names at the top level of endpoint files

An endpoint file imports types, helpers, children and the function behind identifiers, and declares
an object and a function for every binding, one function for identifiers and the interface of query
parameters. The registry keeps types apart and an entry its bindings, but nothing keeps the names of
different kinds apart, nor children of different files.
-/
namespace HydraClient

open Metadata TypeRegistry Operations

section Lists

/-- The names in the import block of a file, statement by statement. -/
def FileSet.importedNames (s : FileSet) (file : String) : List String :=
  ((SourceFile.importsOf (s.fragments file)).toList.filter (·.1 != file)).flatMap (·.2.toList)

theorem FileSet.mem_importedNames {s : FileSet} {file n : String} :
    n ∈ s.importedNames file ↔ ∃ target, s.ImportsFrom file target n := by
  simp only [importedNames, List.mem_flatMap, List.mem_filter, bne_iff_ne, ImportsFrom,
    Imports.Takes]
  constructor
  · rintro ⟨g, ⟨hg, hne⟩, hn⟩
    exact ⟨g.1, hne, g, hg, rfl, hn⟩
  · rintro ⟨_, hne, g, hg, rfl, hn⟩
    exact ⟨g, ⟨hg, hne⟩, hn⟩

/-- The import block of a file lists no name twice unless two other files give it. -/
theorem FileSet.nodup_importedNames {s : FileSet} {file : String} :
    (s.importedNames file).Nodup ↔ ∀ n target target', s.ImportsFrom file target n →
      s.ImportsFrom file target' n → target = target' := by
  generalize hi : SourceFile.importsOf (s.fragments file) = i
  unfold importedNames ImportsFrom Imports.Takes
  rw [hi]
  have hgroups : (i.toList.filter (·.1 != file)).Pairwise fun g g' => g.1 ≠ g'.1 :=
    ((List.pairwise_map.1 i.sorted).imp fun hlt heq => by
      rw [heq] at hlt
      exact String.lt_irrefl _ hlt).sublist List.filter_sublist
  have hnames : ∀ g ∈ i.toList.filter (·.1 != file), g.2.toList.Nodup := fun g _ =>
    g.2.sorted.imp fun hlt heq => by
      rw [heq] at hlt
      exact String.lt_irrefl _ hlt
  rw [List.nodup_flatMap]
  constructor
  · rintro ⟨-, hdisjoint⟩ n _ _ ⟨hne, g, hg, rfl, hn⟩ ⟨hne', g', hg', rfl, hn'⟩
    by_contra hfiles
    have : Std.Symm (Function.onFun List.Disjoint fun g : String × NameSet => g.2.toList) :=
      ⟨fun _ _ h => List.Disjoint.symm h⟩
    refine hdisjoint.forall (List.mem_filter.2 ⟨hg, by simpa using hne⟩)
      (List.mem_filter.2 ⟨hg', by simpa using hne'⟩) ?_ hn hn'
    rintro rfl
    exact hfiles rfl
  · intro hone
    refine ⟨hnames, hgroups.imp_of_mem ?_⟩
    intro g g' hg hg' hfiles n hn hn'
    obtain ⟨hg, hne⟩ := List.mem_filter.1 hg
    obtain ⟨hg', hne'⟩ := List.mem_filter.1 hg'
    exact hfiles (hone n g.1 g'.1 ⟨by simpa using hne, g, hg, rfl, hn⟩
      ⟨by simpa using hne', g', hg', rfl, hn'⟩)

namespace EndpointEntry

def exposedBindings (e : EndpointEntry) : List Binding := e.bindings.values.filter (·.isExposed)

def objectNames (e : EndpointEntry) : List String := e.exposedBindings.map (·.symbol)

def factoryNames (e : EndpointEntry) : List String :=
  e.exposedBindings.map fun b => b.symbol ++ "EndpointFactory"

def identifierNames (e : EndpointEntry) : List String :=
  (e.iriKey.bind e.bindings.get?).toList.map fun b => Payload.iriFunction b.name

end EndpointEntry

namespace Draft

def interfaceNames (d : Draft) (file : String) : List String :=
  (d.types.toList.filter fun t => t.kind = .interface ∧ t.file = some file).map (·.name)

def declaredNames (d : Draft) (e : EndpointEntry) : List String :=
  e.objectNames ++ e.factoryNames ++ e.identifierNames ++ d.interfaceNames e.file

/-- The names at the top level of the file of an entry: imports first, then declarations. -/
def topNames (d : Draft) (e : EndpointEntry) : List String :=
  d.files.importedNames e.file ++ d.declaredNames e

end Draft

theorem append_ne_append {a b s t : String} (hs : s.toList ≠ []) (ht : t.toList ≠ [])
    (hlast : s.toList.getLast? ≠ t.toList.getLast?) : a ++ s ≠ b ++ t := by
  intro h
  have h := congrArg (fun s => s.toList.getLast?) h
  simp only [String.toList_append, List.getLast?_append_of_ne_nil _ hs,
    List.getLast?_append_of_ne_nil _ ht] at h
  exact hlast h

theorem factory_ne_listParams (a b : String) : a ++ "EndpointFactory" ≠ listParamsName b :=
  append_ne_append (by decide) (by decide) (by decide)

theorem factory_ne_iriFunction (a b : String) : a ++ "EndpointFactory" ≠ Payload.iriFunction b :=
  append_ne_append (by decide) (by decide) (by decide)

theorem iriFunction_ne_listParams (a b : String) : Payload.iriFunction a ≠ listParamsName b :=
  append_ne_append (by decide) (by decide) (by decide)

theorem generateIri_ne_factory (a : String) : "generateIri" ≠ a ++ "EndpointFactory" :=
  append_ne_append (a := "generate") (s := "Iri") (by decide) (by decide) (by decide)

theorem generateIri_ne_listParams (a : String) : "generateIri" ≠ listParamsName a :=
  append_ne_append (a := "generate") (s := "Iri") (by decide) (by decide) (by decide)

end Lists

section Registry

variable {cat : Catalog} {r : TypeRegistry} {t : TypeEntry} {n x : String}

theorem TypeRegistry.Coherent.names_toList (h : Coherent r) : r.toList.map (·.name) = r.names := by
  rw [toList, OrderedMap.values, List.map_map, names, OrderedMap.keys]
  exact List.map_congr_left fun p hp => h.named (OrderedMap.mem_entries_iff.1 hp)

theorem Draft.nodup_interfaceNames {d : Draft} (h : Coherent d.types) (file : String) :
    (d.interfaceNames file).Nodup := by
  have hnames : (d.types.toList.map (·.name)).Nodup := by
    rw [h.names_toList]
    exact d.types.entries.distinct
  exact hnames.sublist (List.filter_sublist.map _)

theorem Draft.mem_interfaceNames {d : Draft} (h : Coherent d.types) {file : String} :
    n ∈ d.interfaceNames file ↔
      ∃ t, d.types.get? n = some t ∧ t.kind = .interface ∧ t.file = some file := by
  simp only [interfaceNames, List.mem_map, List.mem_filter, decide_eq_true_eq]
  constructor
  · rintro ⟨t, ⟨ht, hkind, hfile⟩, rfl⟩
    obtain ⟨m, hm⟩ := TypeRegistry.mem_toList.1 ht
    exact ⟨t, (h.named hm).symm ▸ hm, hkind, hfile⟩
  · rintro ⟨t, ht, hkind, hfile⟩
    exact ⟨t, ⟨TypeRegistry.mem_toList.2 ⟨n, ht⟩, hkind, hfile⟩, h.named ht⟩

theorem Sound.listParams_of_endpoint (h : Sound cat r) (ht : r.get? n = some t)
    (hkind : t.kind = .interface) (hfile : t.file = some ("endpoint/" ++ x)) :
    ∃ typeName, n = listParamsName typeName := by
  cases h.entries ht with
  | base hb =>
    rcases BaseTypes.file_of_mem hb with hnone | hshared | hshared
    · rw [hfile] at hnone
      cases hnone
    · exact absurd (Option.some.inj (hshared.symm.trans hfile))
        (interfaces_ne_endpoint "ApiTypes" x)
    · exact absurd (Option.some.inj (hshared.symm.trans hfile)) (interfaces_ne_endpoint "Enum" x)
  | model _ _ hh _ =>
    have hown : t.file = some ("interfaces/" ++ t.name) := TypeEntry.file_of_head hh
    exact absurd (Option.some.inj (hown.symm.trans hfile)) (interfaces_ne_endpoint _ x)
  | enumeration _ _ _ _ he =>
    rw [he] at hkind
    cases hkind
  | @list _ typeName _ _ _ _ hh _ =>
    have hname : t.name = listParamsName typeName := (congrArg TypeEntry.name hh :)
    exact ⟨typeName, (h.coherent.named ht).symm.trans hname⟩

theorem EndpointEntry.nodup_objectNames {e : EndpointEntry}
    (h : ∀ {k b}, e.bindings.get? k = some b → b.symbol = k) : e.objectNames.Nodup := by
  have hsymbols : e.bindings.values.map (·.symbol) = e.bindings.keys := by
    rw [OrderedMap.values, List.map_map, OrderedMap.keys]
    exact List.map_congr_left fun p hp => h (OrderedMap.mem_entries_iff.1 hp)
  have hnodup : (e.bindings.values.map (·.symbol)).Nodup := by
    rw [hsymbols]
    exact e.bindings.distinct
  exact hnodup.sublist (List.filter_sublist.map _)

theorem EndpointEntry.factoryNames_eq (e : EndpointEntry) :
    e.factoryNames = e.objectNames.map (· ++ "EndpointFactory") := by
  rw [objectNames, List.map_map]
  rfl

theorem EndpointEntry.nodup_identifierNames (e : EndpointEntry) : e.identifierNames.Nodup := by
  unfold identifierNames
  cases e.iriKey.bind e.bindings.get? <;> simp

end Registry

structure Draft.ChildIn (d : Draft) (e : EndpointEntry) (child : ChildEndpoint) (file : String) :
    Prop where
  offered : Linking.ChildOf e child
  home : ∃ e', d.operations.get? child.source = some e' ∧ e'.file = file

inductive Draft.Supplies (d : Draft) (e : EndpointEntry) (target n : String) : Prop where
  | helper : target = BaseTypes.apiMethodsFile → n ∈ Render.helperNames e → Supplies d e target n
  | child {child : ChildEndpoint} : d.ChildIn e child target → n = child.symbol →
      Supplies d e target n
  | generator : e.iriKey.isSome = true → target = BaseTypes.apiTypesFile → n = "generateIri" →
      Supplies d e target n
  | type : d.types.Declares target n → Supplies d e target n

section Files

variable {doc : Document} {disk : Disk} {seeded modeled served d₀ d : Draft}
  {className target n : String} {e : EndpointEntry} {child : ChildEndpoint}

section Phases

variable {cat : Catalog} (hp : Phased cat disk seeded modeled served d₀)
  (hr : Rendered cat disk d₀ d)
include hp hr

theorem home_of_offer {o : Linking.Offer} (ho : o ∈ Linking.offers served.operations) :
    ∃ e, d.operations.get? o.child.source = some e ∧ e.file = o.file := by
  obtain ⟨x, hx, -, -, -, hfile, hsource, -⟩ := Linking.offered_by ho
  obtain ⟨c, hc⟩ := OrderedMap.mem_values_iff.1 hx
  obtain ⟨-, shape, resource, hserved⟩ := hp.bound.entries hc
  have hcores := hp.linked.cores c
  rw [hc, ← hr.operations] at hcores
  obtain ⟨e, he, hcore⟩ := Option.map_eq_some_iff.1 hcores
  rw [hsource, hserved.holds.source]
  exact ⟨e, he, (EndpointEntry.file_of_core hcore).trans hfile.symm⟩

theorem imports_of_entry (he : d.operations.get? className = some e)
    (hi : e.imports.Takes target n) :
    Met cat modeled.types served.types target n ∨
      ∃ child, d.ChildIn e child target ∧ n = child.symbol := by
  have hlink : d.operations = (Linking.link served.operations).1 :=
    hr.operations.trans hp.helpers.operations
  have he₀ : (Linking.link served.operations).1.get? className = some e := hlink ▸ he
  rcases Linking.import_of_link he₀ hi with ⟨x, hx, hi⟩ | ⟨o, ho, rfl, rfl, hchild⟩
  · obtain ⟨-, shape, resource, hserved⟩ := hp.bound.entries hx
    exact .inl (hserved.holds.imports hi)
  · exact .inr ⟨o.child, ⟨hchild, home_of_offer hp hr ho⟩, rfl⟩

theorem takes_child (he : d.operations.get? className = some e)
    (hc : d.ChildIn e child target) : e.imports.Takes target child.symbol := by
  obtain ⟨⟨b, hb, hchild⟩, e', he', rfl⟩ := hc
  have he₀ := he
  rw [hr.operations] at he₀
  rcases hp.linked.children he₀ ⟨b, hb, hchild⟩ with ⟨x, hx, b', hb', hc'⟩ | ⟨o, ho, rfl, hi⟩
  · obtain ⟨-, shape, resource, hserved⟩ := hp.bound.entries hx
    obtain ⟨k, hk⟩ := OrderedMap.mem_values_iff.1 hb'
    rw [hserved.holds.childless hk] at hc'
    simp [OrderedMap.values, OrderedMap.empty] at hc'
  · obtain ⟨e'', he'', hfile⟩ := home_of_offer hp hr ho
    obtain rfl := Option.some.inj (he'.symm.trans he'')
    rwa [hfile]

end Phases

variable (hp : Phased (.ofDocument doc) disk seeded modeled served d₀)
  (hr : Rendered (.ofDocument doc) disk d₀ d) (hm : doc.Unmarked)
include hp hr hm

theorem entry_of_file {className' : String} {e' : EndpointEntry}
    (he : d.operations.get? className = some e) (he' : d.operations.get? className' = some e')
    (hfile : e.file = e'.file) : className = className' := by
  obtain ⟨_, _, resource, hw, -⟩ := hp.written hr he
  obtain ⟨_, _, resource', hw', -⟩ := hp.written hr he'
  have hname : resource.name = resource'.name := by
    have := hw.file.symm.trans (hfile.trans hw'.file)
    exact (String.append_right_inj _).1 this
  have hl := hw.served.lookupSource hm.unshadowed
  have hl' := hw'.served.lookupSource hm.unshadowed
  have hcoherent := hr.coherent hp.coherent
  obtain ⟨-, hget, hsource⟩ := hcoherent.of_lookupSource hl
  obtain ⟨-, hget', hsource'⟩ := hcoherent.of_lookupSource hl'
  rw [hname] at hget
  obtain rfl := Option.some.inj (hget.symm.trans hget')
  exact Option.some.inj (hsource.symm.trans hsource')

/-- What an endpoint file imports is a helper, a child, the function behind identifiers or a type of
the registry. -/
theorem supplies_of_import (he : d.operations.get? className = some e)
    (hi : d.files.ImportsFrom e.file target n) : d.Supplies e target n := by
  have hs := hr.sound (hp.sound hm.unshadowed)
  obtain ⟨_, _, resource, hw, -⟩ := hp.written hr he
  rw [hw.file] at hi
  rcases importsFrom_endpoint hp hr hi with
    ⟨t, ht, -, hi⟩ | ⟨e', hmem, body, i, hendpoint, hfile, hi⟩
  · obtain ⟨m, hm⟩ := TypeRegistry.mem_toList.1 ht
    exact .type (hs.declares hm hi)
  · obtain ⟨c, hc⟩ := OrderedMap.mem_values_iff.1 hmem
    obtain rfl := entry_of_file hp hr hm hc he (hfile.trans hw.file.symm)
    obtain rfl := Option.some.inj (hc.symm.trans he)
    rcases (Render.takes_endpoint hendpoint).1 hi with ⟨htarget, hn⟩ | hi |
      ⟨k, b, hb, -, hcall, ⟨htarget, rfl | rfl⟩ | ⟨htarget, rfl⟩⟩
    · exact .helper htarget hn
    · rcases imports_of_entry hp hr he hi with hmet | ⟨child, hchild, hn⟩
      · have hd := hmet.declares (hp.sound_modeled hm.unshadowed) hm.unshadowed
        rw [← hp.types_eq, ← hr.types] at hd
        exact .type hd
      · exact .child hchild hn
    · exact .type (htarget ▸ hs.seeded.declares_hydraIri)
    · refine .generator ?_ htarget rfl
      unfold Render.iriCallAt at hcall
      split at hcall
      · rename_i hk
        rw [hk, Option.isSome_some]
      · cases hcall
    · exact .type (htarget ▸ declares_of_binding hp hr hm he hb)

end Files

namespace Draft

/-- Nothing else at the top level of the file of an entry is called like a name that it imports. -/
def Sole (d : Draft) (e : EndpointEntry) (target n : String) : Prop :=
  n ∉ d.declaredNames e ∧ ∀ other, d.files.ImportsFrom e.file other n → other = target

/-- The names of different kinds do not meet in the file of an entry, and neither do children of
different files. -/
structure Apart (d : Draft) (e : EndpointEntry) : Prop where
  helpers : ∀ n ∈ Render.helperNames e, d.Sole e BaseTypes.apiMethodsFile n
  children : ∀ child file, d.ChildIn e child file → file ≠ e.file → d.Sole e file child.symbol
  generator : e.iriKey.isSome = true → "generateIri" ∉ e.objectNames ++ e.identifierNames ∧
    ∀ other, d.files.ImportsFrom e.file other "generateIri" → other = BaseTypes.apiTypesFile
  types : ∀ target n, d.types.Declares target n → d.files.ImportsFrom e.file target n →
    n ∉ e.objectNames ++ e.factoryNames ++ e.identifierNames
  objects : ∀ n ∈ e.objectNames,
    n ∉ e.factoryNames ++ e.identifierNames ++ d.interfaceNames e.file

end Draft

section Written

variable {doc : Document} {disk : Disk} {seeded modeled served d₀ d : Draft}
  {className key target n : String} {e : EndpointEntry} {b : Binding}
  (hp : Phased (.ofDocument doc) disk seeded modeled served d₀)
  (hr : Rendered (.ofDocument doc) disk d₀ d) (he : d.operations.get? className = some e)
include hp hr he

theorem symbol_eq_key (hb : e.bindings.get? key = some b) : b.symbol = key := by
  obtain ⟨x, _, _, hw, -⟩ := hp.written hr he
  obtain ⟨b', hb', hcore⟩ := EndpointEntry.binding_of_core hw.core.symm hb
  have hsymbol : b.symbol = b'.symbol := (congrArg Binding.symbol hcore :)
  rw [hsymbol, (hw.served.holds.bindings hb').1]

theorem imports_helper (hb : e.bindings.get? key = some b) (hexposed : b.isExposed = true)
    (hn : n ∈ Render.helperNames e) : d.files.ImportsFrom e.file BaseTypes.apiMethodsFile n := by
  obtain ⟨_, _, resource, hw, -⟩ := hp.written hr he
  obtain ⟨body, i, hendpoint⟩ := Render.endpoint?_of_exposed hb hexposed
  refine hr.imports_of_endpoint he hendpoint
    ((Render.takes_endpoint hendpoint).2 (.inl ⟨rfl, hn⟩)) fun hfile => ?_
  have hhead := congrArg (fun s => s.toList.head?) (hfile.trans hw.file)
  simp [BaseTypes.apiMethodsFile, String.toList_append] at hhead

theorem imports_child {child : ChildEndpoint} (hb : e.bindings.get? key = some b)
    (hexposed : b.isExposed = true) (hc : d.ChildIn e child target) (hne : target ≠ e.file) :
    d.files.ImportsFrom e.file target child.symbol := by
  obtain ⟨body, i, hendpoint⟩ := Render.endpoint?_of_exposed hb hexposed
  exact hr.imports_of_endpoint he hendpoint
    ((Render.takes_endpoint hendpoint).2 (.inr (.inl (takes_child hp hr he hc)))) hne

theorem imports_generator (hiri : e.iriKey.isSome = true) :
    d.files.ImportsFrom e.file BaseTypes.apiTypesFile "generateIri" := by
  obtain ⟨_, _, resource, hw, -⟩ := hp.written hr he
  obtain ⟨k, hk⟩ := Option.isSome_iff_exists.1 hiri
  obtain ⟨b, c, hb, hc⟩ := EndpointEntry.binding_of_iriKey hk
  have hexposed := Binding.isExposed_of_iriCall hc
  obtain ⟨body, i, hendpoint⟩ := Render.endpoint?_of_exposed hb hexposed
  have hat : (Render.iriCallAt e k b).isSome = true := by
    rw [Render.iriCallAt, if_pos hk, hc, Option.isSome_some]
  refine hr.imports_of_endpoint he hendpoint ((Render.takes_endpoint hendpoint).2
    (.inr (.inr ⟨k, b, hb, hexposed, hat, .inl ⟨rfl, .inr rfl⟩⟩))) ?_
  rw [hw.file]
  exact interfaces_ne_endpoint "ApiTypes" resource.name

theorem declaredIn_of_declaredNames (hn : n ∈ d.declaredNames e) : d.DeclaredIn e.file n := by
  have hmem : e ∈ d.operations.values := OrderedMap.mem_values_iff.2 ⟨className, he⟩
  have hcoherent := hr.coherent hp.coherent
  simp only [Draft.declaredNames, List.mem_append] at hn
  rcases hn with ((hn | hn) | hn) | hn
  · obtain ⟨b, hb, rfl⟩ := List.mem_map.1 hn
    obtain ⟨hb, hexposed⟩ := List.mem_filter.1 hb
    exact .object hmem rfl hb hexposed
  · obtain ⟨b, hb, rfl⟩ := List.mem_map.1 hn
    obtain ⟨hb, hexposed⟩ := List.mem_filter.1 hb
    exact .factory hmem rfl hb hexposed
  · obtain ⟨b, hb, rfl⟩ := List.mem_map.1 hn
    obtain ⟨k, hk, hb⟩ := Option.bind_eq_some_iff.1 (Option.mem_toList.1 hb)
    obtain ⟨b', c, hb', hc⟩ := EndpointEntry.binding_of_iriKey hk
    obtain rfl := Option.some.inj (hb.symm.trans hb')
    exact .identifier hmem rfl hb (by rw [Render.iriCallAt, if_pos hk, hc])
  · obtain ⟨t, ht, -, hfile⟩ := (Draft.mem_interfaceNames hcoherent).1 hn
    obtain rfl := hcoherent.named ht
    exact .type ht hfile

theorem apart_of_nodup (hb : e.bindings.get? key = some b) (hexposed : b.isExposed = true)
    (h : (d.topNames e).Nodup) : d.Apart e := by
  obtain ⟨himported, hdeclared, hboth⟩ := List.nodup_append.1 h
  have hone := FileSet.nodup_importedNames.1 himported
  have hfree : ∀ {target n}, d.files.ImportsFrom e.file target n → n ∉ d.declaredNames e :=
    fun hi hn => hboth _ (FileSet.mem_importedNames.2 ⟨_, hi⟩) _ hn rfl
  have hsole : ∀ {target n}, d.files.ImportsFrom e.file target n → d.Sole e target n :=
    fun hi => ⟨hfree hi, fun other hother => hone _ _ _ hother hi⟩
  refine ⟨fun n hn => hsole (imports_helper hp hr he hb hexposed hn),
    fun child file hc hne => hsole (imports_child hp hr he hb hexposed hc hne), fun hiri => ?_,
    fun target n _ hi hn => ?_, fun n hobject hother => ?_⟩
  · obtain ⟨hn, hother⟩ := hsole (imports_generator hp hr he hiri)
    refine ⟨fun hmem => hn ?_, hother⟩
    simp only [Draft.declaredNames, List.mem_append] at hmem ⊢
    rcases hmem with hmem | hmem
    · exact .inl (.inl (.inl hmem))
    · exact .inl (.inr hmem)
  · exact hfree hi (List.mem_append_left _ hn)
  · rw [Draft.declaredNames, List.append_assoc, List.append_assoc, ← List.append_assoc
      e.factoryNames] at hdeclared
    exact (List.nodup_append.1 hdeclared).2.2 n hobject n hother rfl

variable (hm : doc.Unmarked)
include hm

theorem interface_apart (hn : n ∈ d.interfaceNames e.file) :
    n ∉ e.factoryNames ++ e.identifierNames ∧ n ≠ "generateIri" := by
  have hs := hr.sound (hp.sound hm.unshadowed)
  obtain ⟨_, _, resource, hw, -⟩ := hp.written hr he
  obtain ⟨t, ht, hkind, hfile⟩ := (Draft.mem_interfaceNames hs.coherent).1 hn
  obtain ⟨typeName, rfl⟩ := hs.listParams_of_endpoint ht hkind (hw.file ▸ hfile)
  refine ⟨fun hmem => ?_, (generateIri_ne_listParams typeName).symm⟩
  rcases List.mem_append.1 hmem with hmem | hmem <;> obtain ⟨b, -, hb⟩ := List.mem_map.1 hmem
  · exact factory_ne_listParams _ _ hb
  · exact iriFunction_ne_listParams _ _ hb

theorem nodup_declaredNames (h : d.Apart e) : (d.declaredNames e).Nodup := by
  have hcoherent := hr.coherent hp.coherent
  have hobjects := EndpointEntry.nodup_objectNames (e := e) fun hb => symbol_eq_key hp hr he hb
  have hfactories : e.factoryNames.Nodup := by
    rw [EndpointEntry.factoryNames_eq]
    exact hobjects.map fun a b hab => (String.append_left_inj _).1 hab
  have hfunctions : (e.factoryNames ++ e.identifierNames).Nodup := by
    refine List.nodup_append.2 ⟨hfactories, e.nodup_identifierNames, ?_⟩
    rintro _ hfactory _ hidentifier rfl
    obtain ⟨b, -, rfl⟩ := List.mem_map.1 hfactory
    obtain ⟨b', -, hb'⟩ := List.mem_map.1 hidentifier
    exact factory_ne_iriFunction _ _ hb'.symm
  have hrest : (e.factoryNames ++ e.identifierNames ++ d.interfaceNames e.file).Nodup := by
    refine List.nodup_append.2 ⟨hfunctions, Draft.nodup_interfaceNames hcoherent _, ?_⟩
    rintro n hn _ hinterface rfl
    exact (interface_apart hp hr he hm hinterface).1 hn
  rw [Draft.declaredNames, List.append_assoc, List.append_assoc, ← List.append_assoc e.factoryNames]
  refine List.nodup_append.2 ⟨hobjects, hrest, ?_⟩
  rintro n hn _ hother rfl
  exact h.objects n hn hother

/-- An import under the name of something that the file declares breaks one of the conditions. -/
theorem not_declared_of_import (h : d.Apart e) (hi : d.files.ImportsFrom e.file target n) :
    n ∉ d.declaredNames e := by
  intro hn
  cases supplies_of_import hp hr hm he hi with
  | helper _ hhelper => exact (h.helpers n hhelper).1 hn
  | child hchild hsymbol => exact (h.children _ _ hchild hi.1).1 (hsymbol ▸ hn)
  | generator hiri _ hname =>
    obtain ⟨hfree, -⟩ := h.generator hiri
    rw [← hname] at hfree
    simp only [Draft.declaredNames, List.mem_append, not_or] at hn hfree
    rcases hn with ((hn | hn) | hn) | hn
    · exact hfree.1 hn
    · obtain ⟨b, -, hb⟩ := List.mem_map.1 hn
      exact generateIri_ne_factory _ (hname.symm.trans hb.symm)
    · exact hfree.2 hn
    · exact (interface_apart hp hr he hm hn).2 hname
  | type hd =>
    rcases List.mem_append.1 hn with hn | hn
    · exact h.types target n hd hi hn
    · -- The registry has one file for a name.
      have hcoherent := hr.coherent hp.coherent
      obtain ⟨t, ht, htarget⟩ := hd
      obtain ⟨u, hu, -, hfile⟩ := (Draft.mem_interfaceNames hcoherent).1 hn
      obtain rfl := Option.some.inj (ht.symm.trans hu)
      exact hi.1 (Option.some.inj (htarget.symm.trans hfile))

theorem target_unique (h : d.Apart e) {target' : String}
    (hi : d.files.ImportsFrom e.file target n) (hi' : d.files.ImportsFrom e.file target' n) :
    target = target' := by
  -- Whatever is no type is imported under its name alone, and types are imported from their files.
  have hothers : ∀ {target target'}, d.files.ImportsFrom e.file target n →
      d.files.ImportsFrom e.file target' n → ¬d.types.Declares target n → target' = target := by
    intro target target' hi hi' hd
    cases supplies_of_import hp hr hm he hi with
    | helper htarget hhelper => exact ((h.helpers n hhelper).2 _ hi').trans htarget.symm
    | child hchild hsymbol =>
      subst hsymbol
      exact (h.children _ _ hchild hi.1).2 _ hi'
    | generator hiri htarget hname =>
      subst hname
      exact ((h.generator hiri).2 _ hi').trans htarget.symm
    | type hd' => exact absurd hd' hd
  by_cases hd : d.types.Declares target n
  · by_cases hd' : d.types.Declares target' n
    · obtain ⟨t, ht, hfile⟩ := hd
      obtain ⟨u, hu, hfile'⟩ := hd'
      obtain rfl := Option.some.inj (ht.symm.trans hu)
      exact Option.some.inj (hfile.symm.trans hfile')
    · exact hothers hi' hi hd'
  · exact (hothers hi hi' hd).symm

theorem nodup_of_apart (h : d.Apart e) : (d.topNames e).Nodup := by
  refine List.nodup_append.2 ⟨?_, nodup_declaredNames hp hr he hm h, ?_⟩
  · exact FileSet.nodup_importedNames.2 fun n _ _ => target_unique hp hr he hm h
  · rintro n himported _ hdeclared rfl
    obtain ⟨target, hi⟩ := FileSet.mem_importedNames.1 himported
    exact not_declared_of_import hp hr he hm h hi hdeclared

end Written

/-- An endpoint file declares what it is said to declare, and the names at its top level are
pairwise distinct exactly if helpers, children, types, the function behind identifiers and the
declarations of its own do not meet. -/
theorem endpoint_names_distinct_iff {doc : Document} {disk : Disk} {d : Draft}
    {className key : String} {e : EndpointEntry} {b : Binding} (h : Generates doc disk d)
    (hm : doc.Unmarked) (he : d.operations.get? className = some e)
    (hb : e.bindings.get? key = some b) (hexposed : b.isExposed = true) :
    (∀ n ∈ d.declaredNames e, d.files.Exported e.file n) ∧
      ((d.topNames e).Nodup ↔ d.Apart e) := by
  obtain ⟨seeded, modeled, served, hp, hr⟩ := h.rendered
  obtain ⟨_, _, resource, hw, -⟩ := hp.written hr he
  have hfile : e.file ≠ "" := by
    rw [hw.file]
    simp
  refine ⟨fun n hn => exported_of_declaredIn h hfile (declaredIn_of_declaredNames hp hr he hn),
    apart_of_nodup hp hr he hb hexposed, nodup_of_apart hp hr he hm⟩

def commentsOf (className property : String) : ClassDecl where
  className := className
  exposures := [{
    shortName := "Comment"
    uriVariables := [{
      parameter := "postId"
      fromClass := some "App\\Entity\\Post"
      fromProperty := some property }]
    operations := [{ type := some "GetCollection" }] }]

/-- A post has comments of a blog and of a shop. Their types get names of their own, and their
endpoints do not. -/
def reviews : Document where
  classes := [{
      className := "App\\Entity\\Post"
      exposures := [{ shortName := "Post", operations := [{ type := some "Get" }] }] },
    commentsOf "App\\Entity\\Blog\\Comment" "comments",
    commentsOf "App\\Entity\\Shop\\Comment" "reviews"]

theorem exists_generates_reviews : ∃ d, Generates reviews {} d ∧
    d.operations = (extraction (.ofDocument reviews) {}).operations := by
  have hgenerated : reviews.isGenerated = true := by decide +kernel
  obtain ⟨d, hd, -⟩ := exists_generates_of_isGenerated hgenerated
  obtain ⟨_, _, _, -, hr⟩ := hd.rendered
  exact ⟨d, hd, hr.operations⟩

theorem exists_post_endpoint {r : OperationRegistry}
    (hr : r = (extraction (.ofDocument reviews) {}).operations) : ∃ e b,
    r.get? "App\\Entity\\Post" = some e ∧ e.bindings.get? "post" = some b ∧
      b.isExposed = true ∧ e.file = "endpoint/Post" ∧
      b.children.values = [⟨"App\\Entity\\Blog\\Comment", "postComment"⟩,
        ⟨"App\\Entity\\Shop\\Comment", "postComment"⟩] := by
  have hfacts : (bindingAt (extraction (.ofDocument reviews) {}) "App\\Entity\\Post" "post").map
      (fun p => (p.2.isExposed, p.1.file, p.2.children.values)) = some (true, "endpoint/Post",
        [⟨"App\\Entity\\Blog\\Comment", "postComment"⟩,
          ⟨"App\\Entity\\Shop\\Comment", "postComment"⟩]) := by decide +kernel
  obtain ⟨⟨e, b⟩, hat, h⟩ := Option.map_eq_some_iff.1 hfacts
  obtain ⟨he, hb⟩ := bindingAt_eq_some_iff.1 hat
  simp only [Prod.mk.injEq] at h
  exact ⟨e, b, hr ▸ he, hb, h.1, h.2.1, h.2.2⟩

theorem reviews_names_distinct_iff : ∃ d e b, Generates reviews {} d ∧ reviews.Unmarked ∧
    d.operations.get? "App\\Entity\\Post" = some e ∧ e.bindings.get? "post" = some b ∧
    b.isExposed = true ∧ (∀ n ∈ d.declaredNames e, d.files.Exported e.file n) ∧
      ((d.topNames e).Nodup ↔ d.Apart e) := by
  obtain ⟨d, hd, hoperations⟩ := exists_generates_reviews
  obtain ⟨e, b, he, hb, hexposed, -, -⟩ := exists_post_endpoint hoperations
  have hm : reviews.Unmarked := by
    unfold Document.Unmarked
    decide
  exact ⟨d, e, b, hd, hm, he, hb, hexposed, endpoint_names_distinct_iff hd hm he hb hexposed⟩

/-- The file of the post imports one name from two files. -/
theorem comment_imported_twice : ∃ d e b, Generates reviews {} d ∧
    (∀ c ∈ reviews.classes, ∀ x ∈ c.exposures, x.shortName.toList.all Char.isAlpha = true) ∧
    d.operations.get? "App\\Entity\\Post" = some e ∧ e.bindings.get? "post" = some b ∧
    b.isExposed = true ∧ d.files.ImportsFrom e.file "endpoint/Comment" "postComment" ∧
    d.files.ImportsFrom e.file "endpoint/ShopComment" "postComment" ∧ ¬(d.topNames e).Nodup := by
  obtain ⟨d, hd, hoperations⟩ := exists_generates_reviews
  obtain ⟨e, b, he, hb, hexposed, hfile, hchildren⟩ := exists_post_endpoint hoperations
  obtain ⟨_, _, _, hp, hr⟩ := hd.rendered
  have hblog : (d.operations.get? "App\\Entity\\Blog\\Comment").map (·.file) =
      some "endpoint/Comment" := by
    rw [hoperations]
    decide +kernel
  have hshop : (d.operations.get? "App\\Entity\\Shop\\Comment").map (·.file) =
      some "endpoint/ShopComment" := by
    rw [hoperations]
    decide +kernel
  have himports : ∀ child ∈ b.children.values, ∀ target,
      (d.operations.get? child.source).map (·.file) = some target → target ≠ "endpoint/Post" →
        d.files.ImportsFrom e.file target child.symbol := fun child hc target hhome hne =>
    imports_child hp hr he hb hexposed
      ⟨⟨b, OrderedMap.mem_values_iff.2 ⟨_, hb⟩, hc⟩, Option.map_eq_some_iff.1 hhome⟩ (hfile ▸ hne)
  have hfirst := himports ⟨"App\\Entity\\Blog\\Comment", "postComment"⟩ (by simp [hchildren])
    _ hblog (by decide)
  have hsecond := himports ⟨"App\\Entity\\Shop\\Comment", "postComment"⟩ (by simp [hchildren])
    _ hshop (by decide)
  refine ⟨d, e, b, hd, by decide, he, hb, hexposed, hfirst, hsecond, fun hnodup => ?_⟩
  have hone := FileSet.nodup_importedNames.1 (List.nodup_append.1 hnodup).1
  exact absurd (hone _ _ _ hfirst hsecond) (by decide)

end HydraClient
