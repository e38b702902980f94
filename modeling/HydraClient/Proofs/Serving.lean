import HydraClient.Proofs.OwnFields
import HydraClient.Proofs.Placement

/-! # Extraction of operations

The exposed operations of a class are taken up in order of declaration. Of two that go under one
symbol and one name the later one stays, and all list operations of a class share one interface of
query parameters, so that the last one decides what it asks for.
-/
namespace HydraClient

open Metadata TypeRegistry Model

namespace Operations

def declared (es : List Exposure) : List (Exposure × Operation) :=
  es.flatMap fun e => (e.operations.filter (·.exposed)).map fun o => (e, o)

def kind? (o : Operation) : Option OperationKind := (OperationKind.ofOperation o).toOption

def goesTo (className symbol name : String) (p : Exposure × Operation) : Bool :=
  bindingSymbol className p.1 == symbol &&
    (kind? p.2).any fun k => OperationKind.nameOf p.2 k == name

def lists (p : Exposure × Operation) : Bool := kind? p.2 == some .list

/-- The call that stands for an operation of a class, whatever types it deals with. -/
def Stands (cat : Catalog) (className typeName : String) (e : Exposure) (o : Operation) (c : Call) :
    Prop :=
  ∃ k input output, kind? o = some k ∧ c = callOf cat.config className e o k input output
    (if k = .list then some (listParamsName typeName) else none)

/-- A name that a file declared at some point while the registry grew. -/
def Met (cat : Catalog) (r₀ r : TypeRegistry) (file n : String) : Prop :=
  ∃ m, Grows cat r₀ m ∧ Grows cat m r ∧ m.Declares file n

def Noted (cat : Catalog) (r₀ r : TypeRegistry) (i : Imports) (n : String) : Prop :=
  ∃ m, Grows cat r₀ m ∧ Grows cat m r ∧ m.Imported i n

def NotesTypes (cat : Catalog) (r₀ r : TypeRegistry) (i : Imports) (c : Call) : Prop :=
  ∀ n, c.input = some n ∨ c.output = some n → Noted cat r₀ r i n

structure Holds (cat : Catalog) (r₀ r : TypeRegistry) (className : String) (resource : TypeEntry)
    (done : List (Exposure × Operation)) (x : EndpointEntry) : Prop where
  name : x.name = resource.name
  source : x.source = className
  file : x.file = "endpoint/" ++ resource.name
  bindings : ∀ {k b}, x.bindings.get? k = some b → b.symbol = k ∧ b.name = resource.name
  calls : ∀ {k b n c}, x.bindings.get? k = some b → b.calls.get? n = some c → c.name = n ∧
    ∃ e o, (done.filter (goesTo className k n)).getLast? = some (e, o) ∧
      Stands cat className resource.name e o c
  imports : ∀ {f n}, x.imports.Takes f n → Met cat r₀ r f n
  noted : ∀ {k b n c}, x.bindings.get? k = some b → b.calls.get? n = some c →
    NotesTypes cat r₀ r x.imports c
  childless : ∀ {k b}, x.bindings.get? k = some b → b.children = .empty
  placed : ¬cat.ClaimsBuiltin → Coherent r₀ → r₀.Placed → x.imports.Placed

/-- A type stands for the query parameters of a class. -/
structure AsksFor (className : String) (resource t : TypeEntry) : Prop where
  head : t.head = {
    name := listParamsName resource.name
    kind := .interface
    file := some ("endpoint/" ++ resource.name)
    source := some (listSource className) }
  generic : t.imports.Takes BaseTypes.apiTypesFile "ListParams"

/-- The interface of query parameters is that of the last operation that lists. -/
def ListsLast (cat : Catalog) (r : TypeRegistry) (className : String) (resource : TypeEntry)
    (done : List (Exposure × Operation)) : Prop :=
  ∀ p, (done.filter lists).getLast? = some p → ∃ t,
    r.get? (listParamsName resource.name) = some t ∧ AsksFor className resource t ∧
      t.properties = ownProperties cat resource p.1 p.2

/-- A class while its operations are taken up: types and entries of other classes are as before. -/
structure Serving (cat : Catalog) (r₀ : TypeRegistry) (s₀ : Draft) (className : String)
    (resource : TypeEntry) (done : List (Exposure × Operation)) (s : Draft) : Prop where
  growth : Grows cat s₀.types s.types
  kept : KeepsBut (listSource className) s₀.types s.types
  files : s.files = s₀.files
  others : ∀ {c}, c ≠ className → s.operations.get? c = s₀.operations.get? c
  entry : ∃ x, s.operations.get? className = some x ∧
    Holds cat r₀ s.types className resource done x
  listed : ListsLast cat s.types className resource done

variable {cat : Catalog} {r₀ r r' : TypeRegistry} {s₀ s s' : Draft} {className file n : String}
  {resource : TypeEntry} {shape : ClassDecl} {e : Exposure} {o : Operation}
  {done : List (Exposure × Operation)} {x : EndpointEntry} {u : Unit}

theorem ne_listSource (className : String) : className ≠ listSource className := by
  intro h
  have := congrArg String.length h
  rw [listSource, String.length_append] at this
  have hlength : "#list-params".length = 12 := by decide
  omega

theorem getLast?_filter_append {α : Type} (p : α → Bool) (l : List α) (a : α) :
    ((l ++ [a]).filter p).getLast? = if p a then some a else (l.filter p).getLast? := by
  rw [List.filter_append]
  by_cases h : p a = true <;> simp [h]

theorem exists_getLast?_filter {α : Type} {p : α → Bool} {l : List α} {a : α} (ha : a ∈ l)
    (hp : p a = true) : ∃ last, (l.filter p).getLast? = some last := by
  have hne : l.filter p ≠ [] := List.ne_nil_of_mem (List.mem_filter.2 ⟨ha, hp⟩)
  exact ⟨_, List.getLast?_eq_some_getLast hne⟩

theorem Met.grow (h : Met cat r₀ r file n) (hr : Grows cat r r') : Met cat r₀ r' file n := by
  obtain ⟨m, hm, hmr, hd⟩ := h
  exact ⟨m, hm, hmr.trans hr, hd⟩

theorem Noted.grow {i : Imports} (h : Noted cat r₀ r i n) (hr : Grows cat r r') :
    Noted cat r₀ r' i n := by
  obtain ⟨m, hm, hmr, hi⟩ := h
  exact ⟨m, hm, hmr.trans hr, hi⟩

theorem Noted.mono {i j : Imports} (h : Noted cat r₀ r i n)
    (hij : ∀ {f n}, i.Takes f n → j.Takes f n) : Noted cat r₀ r j n := by
  obtain ⟨m, hm, hmr, hi⟩ := h
  exact ⟨m, hm, hmr, hi.mono hij⟩

theorem AsksFor.source {t : TypeEntry} (h : AsksFor className resource t) :
    t.source = some (listSource className) := (congrArg TypeEntry.source h.head :)

theorem Met.declares (h : Met cat r₀ r file n) (hs : Sound cat r₀) (hu : cat.Unshadowed) :
    r.Declares file n := by
  obtain ⟨m, hm, hmr, hd⟩ := h
  exact hd.of_keeps ((hs.grows hu hm).keeps hu hmr)

theorem Holds.grow (h : Holds cat r₀ r className resource done x) (hr : Grows cat r r') :
    Holds cat r₀ r' className resource done x where
  name := h.name
  source := h.source
  file := h.file
  bindings := h.bindings
  calls := h.calls
  imports hi := (h.imports hi).grow hr
  noted hb hc n hn := (h.noted hb hc n hn).grow hr
  childless := h.childless
  placed := h.placed

theorem ListsLast.of_keepsBut {y : String} (h : ListsLast cat r className resource done)
    (hr : KeepsBut y r r') (hy : listSource className ≠ y) :
    ListsLast cat r' className resource done := by
  intro p hlast
  obtain ⟨t, ht, hs, hp⟩ := h p hlast
  refine ⟨t, hr.entries ht ?_, hs, hp⟩
  rw [hs.source]
  exact fun e => hy (Option.some.inj e)

theorem ListsLast.of_extends (h : ListsLast cat r className resource done) (hr : Extends r r') :
    ListsLast cat r' className resource done := fun p hlast => by
  obtain ⟨t, ht, hs, hp⟩ := h p hlast
  exact ⟨t, hr.entries ht, hs, hp⟩

theorem ListsLast.append_other (h : ListsLast cat r className resource done)
    (hp : lists (e, o) = false) : ListsLast cat r className resource (done ++ [(e, o)]) := by
  intro p hlast
  rw [getLast?_filter_append, hp] at hlast
  exact h p hlast

theorem ListsLast.append_list {t : TypeEntry} (hp : lists (e, o) = true)
    (ht : r.get? (listParamsName resource.name) = some t)
    (hs : AsksFor className resource t)
    (hproperties : t.properties = ownProperties cat resource e o) :
    ListsLast cat r className resource (done ++ [(e, o)]) := by
  intro p hlast
  rw [getLast?_filter_append, if_pos hp] at hlast
  obtain rfl := Option.some.inj hlast
  exact ⟨t, ht, hs, hproperties⟩

theorem takes_addImport {file : Option String} {g m : String} :
    (x.addImport file n).imports.Takes g m ↔ (file = some g ∧ m = n) ∨ x.imports.Takes g m :=
  Imports.takes_addFrom

theorem imported_addImport {t : TypeEntry} (ht : r.get? t.name = some t) :
    r.Imported (x.addImport t.file t.name).imports t.name :=
  ⟨t, ht, fun _ hf => takes_addImport.2 (.inl ⟨hf, rfl⟩)⟩

theorem Holds.addImport {t : TypeEntry} {c : String} (h : Holds cat r₀ r className resource done x)
    (hr : Grows cat r₀ r) (hs : Coherent r) (hc : cat.Claims c) (hl : r.lookupSource c = some t) :
    Holds cat r₀ r className resource done (x.addImport t.file t.name) := by
  have ht := (hs.of_lookupSource hl).2.1
  refine ⟨h.name, h.source, h.file, h.bindings, h.calls, fun hi => ?_, ?_, h.childless,
    fun hfree hs₀ h₀ => (h.placed hfree hs₀ h₀).addFrom
      ((h₀.grows hs₀ hfree hr).file_ne_none hs hfree hc hl)⟩
  · rcases takes_addImport.1 hi with ⟨hf, rfl⟩ | hi
    · exact ⟨r, hr, .refl, t, ht, hf⟩
    · exact h.imports hi
  · exact fun hb hc n hn => (h.noted hb hc n hn).mono fun hi => takes_addImport.2 (.inr hi)

theorem Holds.open (h : Holds cat r₀ r className resource done x) (e : Exposure) :
    Holds cat r₀ r className resource done { x with
      bindings := x.bindings.insert (bindingSymbol className e)
        (bareBinding className resource e) } where
  name := h.name
  source := h.source
  file := h.file
  bindings {k b} hb := by
    rw [OrderedMap.get?_insert] at hb
    split at hb
    · rename_i hk
      obtain rfl := Option.some.inj hb
      exact ⟨hk.symm, rfl⟩
    · exact h.bindings hb
  calls {k b n c} hb hc := by
    rw [OrderedMap.get?_insert] at hb
    split at hb
    · obtain rfl := Option.some.inj hb
      cases hc
    · exact h.calls hb hc
  imports := h.imports
  noted {k b n c} hb hc := by
    rw [OrderedMap.get?_insert] at hb
    split at hb
    · obtain rfl := Option.some.inj hb
      cases hc
    · exact h.noted hb hc
  childless {k b} hb := by
    rw [OrderedMap.get?_insert] at hb
    split at hb
    · obtain rfl := Option.some.inj hb
      rfl
    · exact h.childless hb
  placed := h.placed

theorem Holds.call {c : Call} (h : Holds cat r₀ r className resource done x)
    (hc : Stands cat className resource.name e o c) (hnotes : NotesTypes cat r₀ r x.imports c) :
    Holds cat r₀ r className resource (done ++ [(e, o)])
      (withCall (bindingSymbol className e) c x) where
  name := h.name
  source := h.source
  file := h.file
  bindings {k b} hb := by
    rw [withCall, OrderedMap.get?_modify] at hb
    split at hb
    · obtain ⟨b', hb', rfl⟩ := Option.map_eq_some_iff.1 hb
      obtain ⟨hsymbol, hname⟩ := h.bindings hb'
      exact ⟨hsymbol, hname⟩
    · exact h.bindings hb
  calls {k b n c'} hb hc' := by
    have hc₀ := hc
    obtain ⟨kind, input, output, hkind, rfl⟩ := hc₀
    have hgoes : goesTo className k n (e, o) =
        (bindingSymbol className e == k && OperationKind.nameOf o kind == n) := by
      simp [goesTo, hkind]
    have hname : (callOf cat.config className e o kind input output
        (if kind = .list then some (listParamsName resource.name) else none)).name =
          OperationKind.nameOf o kind := rfl
    -- A call hides an earlier one under its name, as the last of the declared ones stands.
    rw [getLast?_filter_append, hgoes]
    rw [withCall, OrderedMap.get?_modify] at hb
    split at hb
    · rename_i hk
      obtain ⟨b', hb', rfl⟩ := Option.map_eq_some_iff.1 hb
      rw [OrderedMap.get?_insert, hname] at hc'
      split at hc'
      · rename_i hn
        obtain rfl := Option.some.inj hc'
        exact ⟨hn.symm, e, o, by simp [hk, hn], hc⟩
      · rename_i hn
        have : ¬OperationKind.nameOf o kind = n := fun e => hn e.symm
        simpa [this] using h.calls hb' hc'
    · rename_i hk
      have : ¬bindingSymbol className e = k := fun e => hk e.symm
      simpa [this] using h.calls hb hc'
  imports := h.imports
  noted {k b n c'} hb hc' := by
    rw [withCall, OrderedMap.get?_modify] at hb
    split at hb
    · obtain ⟨b', hb', rfl⟩ := Option.map_eq_some_iff.1 hb
      rw [OrderedMap.get?_insert] at hc'
      split at hc'
      · obtain rfl := Option.some.inj hc'
        exact hnotes
      · exact h.noted hb' hc'
    · exact h.noted hb hc'
  childless {k b} hb := by
    rw [withCall, OrderedMap.get?_modify] at hb
    split at hb
    · obtain ⟨b', hb', rfl⟩ := Option.map_eq_some_iff.1 hb
      have hnone : b'.children = .empty := h.childless hb'
      exact hnone
    · exact h.childless hb
  placed := h.placed

theorem yields_modifyEntry {c : String} {f : EndpointEntry → EndpointEntry}
    (h : Yields (Drafting.modifyEntry c f) s u s') :
    s' = { s with operations := s.operations.modify c f } := Yields.modify_iff.1 h

/-- The type that goes in or out of a call is found under the class itself or under the class that
the operation deals with. -/
theorem ioType_finds {c : Option String} {t : TypeEntry} (hs : Coherent s.types)
    (hl : s.types.lookupSource className = some resource)
    (h : Yields (ioType cat c resource) s t s') :
    Extracted cat s s' ∧ ∃ source, s'.types.lookupSource source = some t ∧
      (source = className ∨ ∃ p, c = some p ∧ ClassName.relative p = source) := by
  unfold ioType at h
  split at h
  · obtain ⟨rfl, rfl⟩ := Yields.pure_iff.1 h
    exact ⟨.refl _, className, hl, .inl rfl⟩
  · rename_i p
    split at h
    · obtain ⟨rfl, rfl⟩ := Yields.pure_iff.1 h
      exact ⟨.refl _, className, hl, .inl rfl⟩
    · obtain ⟨hx, hl'⟩ := extract_finds _ hs h
      exact ⟨hx, ClassName.relative p, hl', .inr ⟨p, rfl, rfl⟩⟩

theorem yields_listParams {entry : EndpointEntry}
    (h : Yields (listParams cat entry resource e o) s n s') : n = listParamsName resource.name ∧
      ∃ d, Yields (deriveFields cat s.types resource o)
          ⟨(pagingFields cat.config e o).1, (listBase cat.config entry resource e o).imports⟩ ⟨⟩ d ∧
        (∀ held, s.types.get? (listParamsName resource.name) = some held →
          held.source = some (listSource entry.source)) ∧
        s' = { s with types := s.types.put (listType cat.config entry resource e o d) } := by
  have h := Yields.get_bind.1 h
  dsimp only at h
  split at h
  · exact absurd h Yields.not_throw
  · rename_i d hd
    obtain ⟨_, m, hr, h⟩ := Yields.bind_iff.1 h
    obtain ⟨rfl, rfl⟩ := Yields.pure_iff.1 h
    obtain ⟨hheld, rfl⟩ := Drafting.yields_register hr
    have hname : (listBase cat.config entry resource e o).name = listParamsName resource.name :=
      listType_name (d := d)
    have hsource : (listBase cat.config entry resource e o).source =
        some (listSource entry.source) := listType_source (d := d)
    refine ⟨hname, d, hd, fun held hh => ?_, rfl⟩
    exact (hheld held (by rwa [hname])).trans hsource

namespace Serving

theorem found (h : Serving cat r₀ s₀ className resource done s) (hs₀ : Coherent s₀.types)
    (hl : s₀.types.lookupSource className = some resource) :
    s.types.lookupSource className = some resource :=
  h.kept.lookupSource hs₀ (ne_listSource className) hl

theorem coherent (h : Serving cat r₀ s₀ className resource done s) (hs₀ : Coherent s₀.types) :
    Coherent s.types := h.growth.coherent hs₀

theorem modify {f : EndpointEntry → EndpointEntry}
    (h : Serving cat r₀ s₀ className resource done s)
    (hf : ∀ x, Holds cat r₀ s.types className resource done x →
      Holds cat r₀ s.types className resource done (f x)) :
    Serving cat r₀ s₀ className resource done
      { s with operations := s.operations.modify className f } where
  growth := h.growth
  kept := h.kept
  files := h.files
  others hc := by rw [OrderedMap.get?_modify, if_neg hc, h.others hc]
  entry := by
    obtain ⟨x, hx, hholds⟩ := h.entry
    exact ⟨f x, by simp [OrderedMap.get?_modify, hx], hf x hholds⟩
  listed := h.listed

theorem of_extracted (h : Serving cat r₀ s₀ className resource done s)
    (hx : Extracted cat s s') : Serving cat r₀ s₀ className resource done s' where
  growth := h.growth.trans hx.growth
  kept := h.kept.trans (.of_extends hx.kept)
  files := hx.files.trans h.files
  others hc := by rw [hx.operations, h.others hc]
  entry := by
    obtain ⟨x, hx', hholds⟩ := h.entry
    exact ⟨x, by rw [hx.operations, hx'], hholds.grow hx.growth⟩
  listed := h.listed.of_extends hx.kept

theorem of_openBinding (h : Serving cat r₀ s₀ className resource done s)
    (hy : Yields (openBinding className resource e) s u s') :
    Serving cat r₀ s₀ className resource done s' := by
  obtain rfl := yields_modifyEntry hy
  refine h.modify ?_
  intro x hx
  split
  · exact hx
  · exact hx.open e

theorem call {c : Call} (h : Serving cat r₀ s₀ className resource done s)
    (hc : Stands cat className resource.name e o c)
    (hnotes : ∀ x, s.operations.get? className = some x → NotesTypes cat r₀ s.types x.imports c)
    (hgrow : Grows cat s.types r')
    (hkept : KeepsBut (listSource className) s.types r')
    (hlisted : ListsLast cat r' className resource (done ++ [(e, o)])) :
    Serving cat r₀ s₀ className resource (done ++ [(e, o)]) { s with
      types := r'
      operations := s.operations.modify className (withCall (bindingSymbol className e) c) } where
  growth := h.growth.trans hgrow
  kept := h.kept.trans hkept
  files := h.files
  others hc := by rw [OrderedMap.get?_modify, if_neg hc, h.others hc]
  entry := by
    obtain ⟨x, hx, hholds⟩ := h.entry
    exact ⟨_, by rw [OrderedMap.get?_modify, if_pos rfl, hx, Option.map_some],
      (hholds.grow hgrow).call hc fun n hn => (hnotes x hx n hn).grow hgrow⟩
  listed := hlisted

end Serving

def newEntry (className : String) (resource : TypeEntry) : EndpointEntry where
  name := resource.name
  source := className
  file := "endpoint/" ++ resource.name

theorem serving_newEntry (s : Draft) : Serving cat r₀ s className resource []
    { s with operations := s.operations.insert className (newEntry className resource) } where
  growth := .refl
  kept := .refl _
  files := rfl
  others hc := by rw [OrderedMap.get?_insert, if_neg hc]
  entry := ⟨newEntry className resource, by simp [OrderedMap.get?_insert],
    ⟨rfl, rfl, rfl, nofun, nofun, fun hi => absurd hi (Imports.not_takes_empty _ _), nofun,
      nofun, fun _ _ _ => Imports.placed_empty⟩⟩
  listed _ h := by simp at h

section Class

variable (ha : className ∈ cat.resources) (hc : cat.class? className = some shape)
  (hg : Grows cat r₀ s₀.types) (hs₀ : Coherent s₀.types)
  (hl : s₀.types.lookupSource className = some resource)
include ha hc hg hs₀ hl

omit ha in
theorem serving_of_buildCall {c : Call} (h : Serving cat r₀ s₀ className resource done s)
    (he : e ∈ shape.exposures) (ho : o ∈ e.operations)
    (hy : Yields (buildCall cat (newEntry className resource) resource e o) s c s') :
    ∃ k input output m params, kind? o = some k ∧ Serving cat r₀ s₀ className resource done m ∧
      c = callOf cat.config className e o k input output params ∧
      (∀ x, m.operations.get? className = some x → NotesTypes cat r₀ m.types x.imports c) ∧
      Yields (if k = .list then some <$> listParams cat (newEntry className resource) resource e o
        else pure none) m params s' := by
  obtain ⟨kind, hkind, hy⟩ := Yields.lift_bind.1 hy
  obtain ⟨input, m₁, hinput, hy⟩ := Yields.bind_iff.1 hy
  obtain ⟨output, m₂, houtput, hy⟩ := Yields.bind_iff.1 hy
  obtain ⟨_, m₃, himports, hy⟩ := Yields.bind_iff.1 hy
  obtain rfl := yields_modifyEntry himports
  have hself : cat.Claims className := .inl (Catalog.classify_eq_model_iff.2 ⟨shape, hc⟩)
  have hshape : shape ∈ cat.classes.values := OrderedMap.mem_values_iff.2 ⟨_, hc⟩
  obtain ⟨hx₁, a, hin, ha⟩ := ioType_finds (h.coherent hs₀) (h.found hs₀ hl) hinput
  have h₁ := h.of_extracted hx₁
  obtain ⟨hx₂, b, hout, hb⟩ := ioType_finds (h₁.coherent hs₀) (h₁.found hs₀ hl) houtput
  have h₂ := h₁.of_extracted hx₂
  have ha : cat.Claims a := by
    rcases ha with rfl | ⟨p, hp, hpa⟩
    · exact hself
    · exact .inr (.inr ⟨shape, hshape, e, he, o, ho, .inl (by simp [hp, hpa])⟩)
  have hb : cat.Claims b := by
    rcases hb with rfl | ⟨p, hp, hpb⟩
    · exact hself
    · exact .inr (.inr ⟨shape, hshape, e, he, o, ho, .inr (by simp [hp, hpb])⟩)
  have hin := hx₂.kept.lookupSource hin
  have hs₂ := h₂.coherent hs₀
  have h₃ := h₂.modify fun x hx =>
    (hx.addImport (hg.trans h₂.growth) hs₂ ha hin).addImport (hg.trans h₂.growth) hs₂ hb hout
  have hkind? : kind? o = some kind := by simp [kind?, hkind, Except.toOption]
  have hnotes : ∀ x, (m₂.operations.modify className fun x =>
      (x.addImport input.file input.name).addImport output.file output.name).get? className =
        some x → ∀ n, some input.name = some n ∨ some output.name = some n →
          Noted cat r₀ m₂.types x.imports n := by
    intro x hx n hn
    rw [OrderedMap.get?_modify, if_pos rfl] at hx
    obtain ⟨y, -, rfl⟩ := Option.map_eq_some_iff.1 hx
    have hm : m₂.types.Imported ((y.addImport input.file input.name).addImport output.file
        output.name).imports n := by
      rcases hn with hn | hn <;> obtain rfl := Option.some.inj hn
      · exact (imported_addImport (hs₂.of_lookupSource hin).2.1).mono
          fun hi => takes_addImport.2 (.inr hi)
      · exact imported_addImport (hs₂.of_lookupSource hout).2.1
    exact ⟨m₂.types, hg.trans h₂.growth, .refl, hm⟩
  split at hy
  · rename_i hlist
    obtain ⟨params, m, hparams, hy⟩ := Yields.bind_iff.1 hy
    obtain ⟨rfl, rfl⟩ := Yields.pure_iff.1 hy
    exact ⟨kind, input, output, _, params, hkind?, h₃, rfl, hnotes, by rwa [if_pos hlist]⟩
  · rename_i hlist
    obtain ⟨params, m, hparams, hy⟩ := Yields.bind_iff.1 hy
    obtain ⟨rfl, rfl⟩ := Yields.pure_iff.1 hy
    exact ⟨kind, input, output, _, params, hkind?, h₃, rfl, hnotes, by rwa [if_neg hlist]⟩

theorem serving_of_extractOperation (h : Serving cat r₀ s₀ className resource done s)
    (he : e ∈ shape.exposures) (ho : o ∈ e.operations)
    (hy : Yields (extractOperation cat (newEntry className resource) resource e o) s u s') :
    Serving cat r₀ s₀ className resource
      (done ++ ([o].filter (·.exposed)).map fun o => (e, o)) s' := by
  unfold extractOperation at hy
  split at hy
  · rename_i hexposed
    have hdone : ([o].filter (·.exposed)).map (fun o => (e, o)) = [(e, o)] := by simp [hexposed]
    rw [hdone]
    obtain ⟨call, m', hcall, hy⟩ := Yields.bind_iff.1 hy
    obtain rfl := yields_modifyEntry hy
    obtain ⟨kind, input, output, m, params, hkind, hm, rfl, hnotes, hparams⟩ :=
      serving_of_buildCall hc hg hs₀ hl h he ho hcall
    by_cases hlist : kind = .list
    · rw [if_pos hlist] at hparams
      obtain ⟨n, hname, rfl⟩ := Yields.map_iff.1 hparams
      obtain ⟨rfl, d, hd, hheld, rfl⟩ := yields_listParams hname
      have hstands : Stands cat className resource.name e o (callOf cat.config className e o kind
          input output (some (listParamsName resource.name))) :=
        ⟨kind, input, output, hkind, by rw [if_pos hlist]⟩
      have hkept : KeepsBut (listSource className) m.types (m.types.put
          (listType cat.config (newEntry className resource) resource e o d)) := by
        refine KeepsBut.put listType_source ?_
        rw [listType_name, listType_source]
        exact hheld
      have hregistered : (m.types.put (listType cat.config (newEntry className resource) resource e
          o d)).get? (listParamsName resource.name) =
            some (listType cat.config (newEntry className resource) resource e o d) := by
        rw [get?_put, listType_name, if_pos rfl]
      have hlists : lists (e, o) = true := by simp [lists, hkind, hlist]
      exact hm.call hstands hnotes
        (.single (.listed ha hc he ho (hm.found hs₀ hl) rfl rfl hd hheld)) hkept
        (.append_list hlists hregistered ⟨listType_head _ _ _ _ _ _, takes_listParams hd⟩
          (listType_properties hd))
    · rw [if_neg hlist] at hparams
      obtain ⟨rfl, rfl⟩ := Yields.pure_iff.1 hparams
      have hstands : Stands cat className resource.name e o (callOf cat.config className e o kind
          input output none) := ⟨kind, input, output, hkind, by rw [if_neg hlist]⟩
      have hother : lists (e, o) = false := by simp [lists, hkind, hlist]
      exact hm.call hstands hnotes .refl (.refl _) (hm.listed.append_other hother)
  · rename_i hexposed
    obtain ⟨-, rfl⟩ := Yields.pure_iff.1 hy
    simpa [hexposed] using h

theorem serving_of_extractExposure (h : Serving cat r₀ s₀ className resource done s)
    (he : e ∈ shape.exposures)
    (hy : Yields (extractExposure cat (newEntry className resource) resource e) s u s') :
    Serving cat r₀ s₀ className resource (done ++ declared [e]) s' := by
  obtain ⟨_, m, hopen, hy⟩ := Yields.bind_iff.1 hy
  have hm := h.of_openBinding hopen
  have := (Yields.forM_pass hy).prefix_invariant
    (I := fun before m => Serving cat r₀ s₀ className resource
      (done ++ (before.filter (·.exposed)).map fun o => (e, o)) m) (by simpa using hm)
    fun before o after m m' hsplit hI hR => by
      have := serving_of_extractOperation ha hc hg hs₀ hl hI he (by simp [hsplit]) hR
      simpa using this
  simpa [declared] using this

theorem serving_of_exposures (h : Serving cat r₀ s₀ className resource [] s)
    (hy : Yields (shape.exposures.forM (extractExposure cat (newEntry className resource) resource))
      s u s') : Serving cat r₀ s₀ className resource (declared shape.exposures) s' :=
  (Yields.forM_pass hy).prefix_invariant
    (I := fun before m => Serving cat r₀ s₀ className resource (declared before) m) h
    fun before e after m m' hsplit hI hR => by
      have := serving_of_extractExposure ha hc hg hs₀ hl hI (by simp [hsplit]) hR
      simpa [declared] using this

end Class

structure Served (cat : Catalog) (r₀ r : TypeRegistry) (className : String) (shape : ClassDecl)
    (resource : TypeEntry) (x : EndpointEntry) : Prop where
  served : className ∈ cat.resources
  described : cat.class? className = some shape
  taken : ∃ m, Grows cat r₀ m ∧ m.lookupSource className = some resource
  holds : Holds cat r₀ r className resource (declared shape.exposures) x
  listed : ListsLast cat r className resource (declared shape.exposures)
  found : (∀ a ∈ cat.resources, className ≠ listSource a) →
    r.lookupSource className = some resource

structure Bound (cat : Catalog) (s₀ : Draft) (done : List String) (s : Draft) : Prop where
  growth : Grows cat s₀.types s.types
  files : s.files = s₀.files
  entries : ∀ {c x}, s.operations.get? c = some x → c ∈ done ∧
    ∃ shape resource, Served cat s₀.types s.types c shape resource x

theorem Served.of_keepsBut {a : String} (h : Served cat r₀ r className shape resource x)
    (hgrow : Grows cat r r') (hkept : KeepsBut (listSource a) r r') (hr : Coherent r)
    (ha : a ∈ cat.resources) (hne : className ≠ a) :
    Served cat r₀ r' className shape resource x where
  served := h.served
  described := h.described
  taken := h.taken
  holds := h.holds.grow hgrow
  listed := h.listed.of_keepsBut hkept fun e => hne ((String.append_left_inj _).1 e)
  found hall := hkept.lookupSource hr (hall a ha) (h.found hall)

theorem yields_extractResource {c : String} (hs : Coherent s.types)
    (hfree : s.operations.get? className = none)
    (hy : Yields (extractResource cat className) s c s') : ∃ shape resource m u,
      cat.class? className = some shape ∧ Extracted cat s m ∧
      m.types.lookupSource className = some resource ∧
      Yields (shape.exposures.forM (extractExposure cat (newEntry className resource) resource))
        { m with
          operations := m.operations.insert className (newEntry className resource) } u s' := by
  unfold extractResource at hy
  split at hy
  · rename_i shape hc
    obtain ⟨resource, m, hresource, hy⟩ := Yields.bind_iff.1 hy
    obtain ⟨hx, hl⟩ := extract_finds className hs hresource
    have hcreate : m.operations.getOrCreate className resource.name ("endpoint/" ++ resource.name) =
        (m.operations.insert className (newEntry className resource),
          newEntry className resource) := by
      simp [OperationRegistry.getOrCreate, hx.operations, hfree, newEntry]
    have hy := Yields.get_bind.1 hy
    simp only [hcreate] at hy
    obtain ⟨_, m', hset, hy⟩ := Yields.bind_iff.1 hy
    obtain rfl := Yields.modify_iff.1 hset
    obtain ⟨u, m'', hexposures, hy⟩ := Yields.bind_iff.1 hy
    obtain ⟨-, rfl⟩ := Yields.pure_iff.1 hy
    exact ⟨shape, resource, m, u, hc, hx, hl, hexposures⟩
  · exact absurd hy Yields.not_throw

theorem Bound.fresh {before : List String} (h : Bound cat s₀ before s) (hnew : className ∉ before) :
    s.operations.get? className = none := by
  cases hget : s.operations.get? className with
  | none => rfl
  | some x => exact absurd (h.entries hget).1 hnew

theorem Bound.of_extractResource {before : List String} {c : String}
    (h : Bound cat s₀ before s) (hs₀ : Coherent s₀.types) (ha : className ∈ cat.resources)
    (hnew : className ∉ before) (hy : Yields (extractResource cat className) s c s') :
    Bound cat s₀ (before ++ [className]) s' := by
  have hs := h.growth.coherent hs₀
  obtain ⟨shape, resource, m, _, hc, hx, hl, hexposures⟩ :=
    yields_extractResource hs (h.fresh hnew) hy
  have hm := hx.coherent hs
  have hgrown := h.growth.trans hx.growth
  have hserved := serving_of_exposures ha hc hgrown hm hl (serving_newEntry m) hexposures
  refine ⟨hgrown.trans hserved.growth, hserved.files.trans (hx.files.trans h.files),
    fun {c x} hget => ?_⟩
  by_cases hne : c = className
  · subst hne
    obtain ⟨y, hy, hholds⟩ := hserved.entry
    obtain rfl := Option.some.inj (hget.symm.trans hy)
    exact ⟨by simp, shape, resource, ha, hc, ⟨m.types, hgrown, hl⟩, hholds, hserved.listed,
      fun _ => hserved.found hm hl⟩
  · rw [hserved.others hne, hx.operations] at hget
    obtain ⟨hdone, shape', resource', hserved'⟩ := h.entries hget
    refine ⟨by simp [hdone], shape', resource', ?_⟩
    exact (hserved'.of_keepsBut hx.growth (.of_extends hx.kept) hs ha hne).of_keepsBut
      hserved.growth hserved.kept hm ha hne

theorem bound_of_mapM {done cs : List String} (hs : Coherent s.types)
    (hnone : s.operations = .empty) (hserved : ∀ c ∈ done, c ∈ cat.resources)
    (hnodup : done.Nodup) (hy : Yields (done.mapM (extractResource cat)) s cs s') :
    Bound cat s done s' := by
  refine (Yields.mapM_pass hy).prefix_invariant (I := fun done m => Bound cat s done m)
    ⟨.refl, rfl, fun hget => by simp [hnone] at hget⟩
    fun before c after m m' hsplit hI hR => ?_
  obtain ⟨b, hb⟩ := hR
  rw [hsplit, List.nodup_append] at hnodup
  exact hI.of_extractResource hs (hserved c (by simp [hsplit]))
    (fun hmem => hnodup.2.2 c hmem c (by simp) rfl) hb

theorem bound_of_extractAll {cs : List String} (hs : Coherent s.types)
    (hnone : s.operations = .empty) (hy : Yields (extractAll cat) s cs s') :
    Bound cat s (cat.resources.filter cat.config.matchesNamespace) s' :=
  bound_of_mapM hs hnone (fun _ hc => (List.mem_filter.1 hc).1)
    (cat.nodup_resources.sublist List.filter_sublist) hy

end Operations

end HydraClient
