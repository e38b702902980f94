import HydraClient.Proofs.Runs

/-! # Names in scope

An interface may use what its own file declares and what it imports from the file that declares it.
Interfaces of classes and of query parameters stay in their scope, as long as no class takes the
source of query parameters for its own name.
-/
namespace HydraClient

open Metadata TypeRegistry Operations

namespace TypeRegistry

/-- A name that a type may use in its file. Words for scalars are declared nowhere. -/
def InScope (r : TypeRegistry) (t : TypeEntry) (n : String) : Prop :=
  ∃ u, r.get? n = some u ∧ ∀ f, u.file = some f → t.file = some f ∨ t.imports.Takes f n

variable {r : TypeRegistry} {t : TypeEntry} {i : Imports} {n : String}

theorem Imported.inScope (h : r.Imported i n) (hi : ∀ {f n}, i.Takes f n → t.imports.Takes f n) :
    r.InScope t n := by
  obtain ⟨u, hu, hf⟩ := h
  exact ⟨u, hu, fun f hfile => .inr (hi (hf f hfile))⟩

theorem Reaches.inScope (h : r.Reaches t.name i n) (ht : r.get? t.name = some t)
    (hi : ∀ {f n}, i.Takes f n → t.imports.Takes f n) : r.InScope t n := by
  rcases h with h | ⟨rfl, -⟩
  · exact h.inScope hi
  · exact ⟨t, ht, fun f hfile => .inl hfile⟩

end TypeRegistry

/-- What an interface puts into its parents and into the types of its own properties. The fields of
query parameters may also hold types that a search declares in words of its own. -/
inductive Scoped (cat : Catalog) (r : TypeRegistry) (t : TypeEntry) : Prop where
  | model {className : String} {shape : ClassDecl} :
      t.source = some className → cat.class? className = some shape →
      (∀ s ∈ t.supers, r.InScope t s) →
      (∀ p ∈ t.properties.values, p.inherited = false → p.union.Spells (r.InScope t)) →
      Scoped cat r t
  | list {className typeName : String} {shape : ClassDecl} {e : Exposure} {o : Operation} :
      t.source = some (listSource className) → cat.class? className = some shape →
      e ∈ shape.exposures → o ∈ e.operations →
      t.supers = ["ListParams<" ++ typeName ++ ">"] → r.InScope t "ListParams" →
      r.InScope t typeName →
      (∀ p ∈ t.properties.values, ∃ f : FilterField, p = f.toProperty ∧
        Composed (r.InScope t) (Declared (cat.filtersOf o.filters)) f.union) →
      Scoped cat r t

variable {cat : Catalog} {r : TypeRegistry} {t : TypeEntry}

theorem ModelSound.spells {shape : ClassDecl} (h : ModelSound r t) (hrec : Recorded r shape t)
    (ht : r.get? t.name = some t) :
    ∀ p ∈ t.properties.values, p.inherited = false → p.union.Spells (r.InScope t) := by
  intro p hp hown
  have htakes : ∀ {f n}, p.imports.Takes f n → t.imports.Takes f n := fun hi =>
    hrec.covered p hp ((TypeEntry.takes_importsOf_own hown).2 hi)
  exact (h.properties p hp).union.mono fun n hn => hn.inScope ht htakes

theorem Sound.scoped (h : Sound cat r) (htraced : Traced cat r) (ht : r.get? t.name = some t)
    (hk : t.kind = .interface) (hb : t ∉ BaseTypes.all cat.config.hydraStart) :
    Scoped cat r t := by
  cases h.entries ht with
  | base hbase => exact absurd hbase hb
  | model hc _ hh hm =>
    obtain ⟨_, _, -, -, hrec⟩ :=
      htraced.model_of_hasFactory ht (congrArg TypeEntry.hasFactory hh :)
    exact .model (TypeEntry.source_of_head hh) hc (fun s hs => (hm.supers s hs).inScope id)
      (hm.spells hrec ht)
  | enumeration _ _ _ _ he =>
    rw [he] at hk
    cases hk
  | list _ hc _ hh hl =>
    obtain ⟨e, he, o, ho, hall⟩ := hl.properties
    refine .list (congrArg TypeEntry.source hh :) hc he ho hl.supers (hl.generic.inScope id)
      (hl.element.inScope id) ?_
    intro p hp
    obtain ⟨f, rfl, hf⟩ := hall p hp
    exact ⟨f, rfl, hf.mono fun n hn => hn.inScope id⟩

/-- Every interface beside the base types names only what is in its scope. -/
theorem interface_names_in_scope {doc : Document} {disk : Disk} {d : Draft} {n : String}
    (h : Extracts (.ofDocument doc) disk d) (hu : (Catalog.ofDocument doc).Unshadowed)
    (ht : d.types.get? n = some t) (hk : t.kind = .interface)
    (hb : n ∉ (BaseTypes.all doc.config.hydraStart).map (·.name)) :
    Scoped (.ofDocument doc) d.types t := by
  have hs := h.sound hu
  obtain rfl := hs.coherent.named ht
  refine hs.scoped h.traced ht hk ?_
  intro hmem
  exact hb (List.mem_map_of_mem hmem)

def shelfOf (content : String) : ClassDecl where
  className := "App\\Entity\\Shelf"
  fields := [{ name := "content", types := [{ builtin := "object", className := some content }] }]
  exposures := [{ shortName := "Shelf" }]

def listedBook : ClassDecl where
  className := "App\\Entity\\Book"
  exposures := [{ shortName := "Book", operations := [{ type := some "GetCollection" }] }]

def library : Document where
  classes := [shelfOf "App\\Entity\\Book", listedBook]

theorem extracts_library :
    Extracts (.ofDocument library) {} (extraction (.ofDocument library) {}) :=
  extracts_extraction (by decide +kernel)

theorem shelf_names_in_scope : (Catalog.ofDocument library).Unshadowed ∧
    ∃ t, (extraction (.ofDocument library) {}).types.get? "Shelf" = some t ∧
      t.kind = .interface ∧
      Scoped (.ofDocument library) (extraction (.ofDocument library) {}).types t := by
  have hu : (Catalog.ofDocument library).Unshadowed := by
    unfold Catalog.Unshadowed
    decide +kernel
  have hkind : ((extraction (.ofDocument library) {}).types.get? "Shelf").map (·.kind) =
      some .interface := by decide +kernel
  obtain ⟨t, ht, hk⟩ := Option.map_eq_some_iff.1 hkind
  refine ⟨hu, t, ht, hk, interface_names_in_scope extracts_library hu ht hk ?_⟩
  rw [BaseTypes.names_all]
  decide

def shadowedLibrary : Document where
  classes := [shelfOf "App\\Entity\\Book#list-params", listedBook, {
    className := "App\\Entity\\Book#list-params"
    exposures := [{ shortName := "BookListParams" }] }]

/-- The shelf imports the class from the file that it has lost to the query parameters. -/
theorem shelf_out_of_scope :
    Extracts (.ofDocument shadowedLibrary) {} (extraction (.ofDocument shadowedLibrary) {}) ∧
    ∃ t, (extraction (.ofDocument shadowedLibrary) {}).types.get? "Shelf" = some t ∧
      (t.properties.get? "content").map (fun p => (p.inherited, p.union.tokens)) =
        some (false, ["BookListParams", "HydraIri<BookListParams>"]) ∧
      ¬(extraction (.ofDocument shadowedLibrary) {}).types.InScope t "BookListParams" := by
  have hfile : ((extraction (.ofDocument shadowedLibrary) {}).types.get? "BookListParams").map
      (·.file) = some (some "endpoint/Book") := by decide +kernel
  have hshelf : ((extraction (.ofDocument shadowedLibrary) {}).types.get? "Shelf").map (fun t =>
      (t.file, (t.properties.get? "content").map (fun p => (p.inherited, p.union.tokens)),
        decide (t.imports.Takes "endpoint/Book" "BookListParams"))) =
      some (some "interfaces/Shelf",
        some (false, ["BookListParams", "HydraIri<BookListParams>"]), false) := by decide +kernel
  obtain ⟨t, ht, hfields⟩ := Option.map_eq_some_iff.1 hshelf
  obtain ⟨hown, hcontent, htakes⟩ : t.file = some "interfaces/Shelf" ∧ _ ∧ _ := by
    simpa only [Prod.mk.injEq] using hfields
  refine ⟨extracts_extraction (by decide +kernel), t, ht, hcontent, ?_⟩
  rintro ⟨u, hu, hscope⟩
  rw [hu, Option.map_some, Option.some.injEq] at hfile
  rcases hscope _ hfile with h | h
  · rw [hown] at h
    exact absurd h (by decide)
  · exact absurd h (by simpa using htakes)

end HydraClient
