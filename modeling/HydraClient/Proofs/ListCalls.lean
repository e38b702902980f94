import HydraClient.Proofs.Runs

/-! # Calls that list

A call that lists names the interface of query parameters of its class. All lists of a class share
that interface, so a call asks for what its operation declares exactly if the last list of the class
declares the same.
-/
namespace HydraClient

open Metadata TypeRegistry

namespace Operations

/-- A call that lists, with the type that is listed and the interface that it names. The call stands
for one operation, and the interface is made for the last operation that lists. -/
structure Lists (cat : Catalog) (d : Draft) (className symbol : String) (call : Call)
    (shape : ClassDecl) (resource : TypeEntry) (own last : Exposure × Operation) (t : TypeEntry) :
    Prop where
  described : cat.class? className = some shape
  stands : ((declared shape.exposures).filter (goesTo className symbol call.name)).getLast? =
    some own
  isList : lists own = true
  listed : (∀ a ∈ cat.resources, className ≠ listSource a) →
    d.types.lookupSource className = some resource
  named : call.listParams = some t.name
  registered : d.types.get? t.name = some t
  made : ((declared shape.exposures).filter lists).getLast? = some last
  properties : t.properties = ownProperties cat resource last.1 last.2

theorem word_injective {k k' : OperationKind} (h : k.word = k'.word) : k = k' := by
  revert h
  cases k <;> cases k' <;> decide

end Operations

open Operations

/-- Every call that lists asks for the fields of its own operation just when the last list of the
class, under whatever symbol and name it is declared, has the same fields. -/
theorem list_fields_iff_last {doc : Document} {disk : Disk} {d : Draft}
    {className symbol name : String} {e : EndpointEntry} {b : Binding} {call : Call}
    (h : Extracts (.ofDocument doc) disk d) (he : d.operations.get? className = some e)
    (hb : e.bindings.get? symbol = some b) (hc : b.calls.get? name = some call)
    (hk : call.kind = "list") : ∃ shape resource own last t,
      Lists (.ofDocument doc) d className symbol call shape resource own last t ∧
      (t.properties = ownProperties (.ofDocument doc) resource own.1 own.2 ↔
        ownProperties (.ofDocument doc) resource last.1 last.2 =
          ownProperties (.ofDocument doc) resource own.1 own.2) := by
  obtain ⟨seeded, modeled, served, hphased⟩ := h.phased
  obtain ⟨shape, resource, x, hserved, hcore⟩ := hphased.served_entry he
  obtain ⟨b', hb', hbcore⟩ := EndpointEntry.binding_of_core hcore.symm hb
  have hcalls : b.calls = b'.calls := (congrArg Binding.calls hbcore : b.core.calls = b'.core.calls)
  rw [hcalls] at hc
  obtain ⟨hname, o, p, hown, kind, input, output, hkind, hcall⟩ := hserved.holds.calls hb' hc
  have hlist : kind = .list := by
    apply word_injective
    rw [hcall] at hk
    exact hk
  have hlists : lists (o, p) = true := by simp [lists, hkind, hlist]
  have hmem : (o, p) ∈ declared shape.exposures :=
    (List.mem_filter.1 (List.mem_of_getLast? hown)).1
  -- The call lists itself, so that there is a last one that does.
  obtain ⟨last, hlast⟩ := exists_getLast?_filter hmem hlists
  obtain ⟨t, ht, -, hproperties⟩ := hserved.listed last hlast
  have htname : t.name = listParamsName resource.name := hphased.coherent.named ht
  refine ⟨shape, resource, (o, p), last, t, ?_, by rw [hproperties]⟩
  exact {
    described := hserved.described
    stands := hname ▸ hown
    isList := hlists
    listed := hserved.found
    named := by rw [hcall, htname, if_pos hlist]; rfl
    registered := htname ▸ ht
    made := hlast
    properties := hproperties }

/-- Two lists, of which the second goes unpaged and shares its name with an item. -/
def bookExposure : Exposure where
  shortName := "Book"
  operations := [
    { type := some "GetCollection" },
    { type := some "GetCollection", name := some "read", paging := { enabled := some false } },
    { type := some "Get" }]

def books : Document where
  classes := [{ className := "App\\Entity\\Book", exposures := [bookExposure] }]

def booksDraft : Draft := extraction (.ofDocument books) {}

theorem extracts_books : Extracts (.ofDocument books) {} booksDraft :=
  extracts_extraction (by decide +kernel)

def bookList? (d : Draft) : Option (EndpointEntry × Binding × Call) :=
  (d.operations.get? "App\\Entity\\Book").bind fun e =>
    (e.bindings.get? "book").bind fun b => (b.calls.get? "list").map fun c => (e, b, c)

theorem list_fields_of_books : ∃ e b call,
    booksDraft.operations.get? "App\\Entity\\Book" = some e ∧
    e.bindings.get? "book" = some b ∧ b.calls.get? "list" = some call ∧ call.kind = "list" ∧
    ∃ shape resource own last t,
      Lists (.ofDocument books) booksDraft "App\\Entity\\Book" "book" call shape resource own last
        t ∧
      (t.properties = ownProperties (.ofDocument books) resource own.1 own.2 ↔
        ownProperties (.ofDocument books) resource last.1 last.2 =
          ownProperties (.ofDocument books) resource own.1 own.2) := by
  have hkind : (bookList? booksDraft).map (·.2.2.kind) = some "list" := by decide +kernel
  obtain ⟨x, hx, hk⟩ := Option.map_eq_some_iff.1 hkind
  obtain ⟨e, he, hx⟩ := Option.bind_eq_some_iff.1 hx
  obtain ⟨b, hb, hx⟩ := Option.bind_eq_some_iff.1 hx
  obtain ⟨c, hc, rfl⟩ := Option.map_eq_some_iff.1 hx
  exact ⟨e, b, c, he, hb, hc, hk, list_fields_iff_last extracts_books he hb hc hk⟩

/-- The list of books declares a page and asks for none. -/
theorem book_list_lacks_page :
    Extracts (.ofDocument books) {} booksDraft ∧
    (bookList? booksDraft).map (fun x => (x.2.2.kind, x.2.2.listParams)) =
      some ("list", some "BookListParams") ∧
    (booksDraft.types.get? "BookListParams").map (·.properties.keys) = some [] ∧
    ((booksDraft.types.lookupSource "App\\Entity\\Book").bind fun resource =>
      ((declared [bookExposure]).filter (goesTo "App\\Entity\\Book" "book" "list")).getLast?.map
        fun own => (ownProperties (.ofDocument books) resource own.1 own.2).keys) =
          some ["page"] := by
  refine ⟨extracts_books, ?_, ?_, ?_⟩
  · decide +kernel
  · decide +kernel
  · decide +kernel

end HydraClient
