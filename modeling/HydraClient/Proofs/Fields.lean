import HydraClient.Proofs.BaseEntries
import HydraClient.Proofs.Growth
import HydraClient.Proofs.Wording

/-! # Properties of fields

Whatever class a field refers to, its property imports the names that its type is spelled with,
unless they belong to the type that has the field. The forms of a field are taken one by one.
-/
namespace HydraClient

open Metadata TypeRegistry Model

structure FieldSound (r : TypeRegistry) (own : String) (p : Property) : Prop where
  imports : ∀ {f n}, p.imports.Takes f n → r.Declares f n
  union : p.union.Spells (r.Reaches own p.imports)
  related : ∀ {n}, p.related = some n → ∃ t, r.get? n = some t
  enumName : ∀ {n}, p.enumName = some n → r.Imported p.imports n

namespace FieldSound

variable {hydra own : String} {r r' : TypeRegistry} {p q : Property}

theorem of_keeps (h : FieldSound r own p) (hr : Keeps r r') : FieldSound r' own p where
  imports hi := (h.imports hi).of_keeps hr
  union := h.union.mono fun _ hn => hn.of_keeps hr
  related hn := by
    obtain ⟨t, ht⟩ := h.related hn
    obtain ⟨u, hu, -⟩ := hr.heads ht
    exact ⟨u, hu⟩
  enumName hn := (h.enumName hn).of_keeps hr

theorem blank (field : Field) (inherited : Bool) :
    FieldSound r own (Model.blank field inherited) where
  imports h := absurd h (Imports.not_takes_empty _ _)
  union := .empty
  related := nofun
  enumName := nofun

theorem withValue {u : TypeUnion} (h : FieldSound r own p)
    (hu : u.Spells (r.Reaches own p.imports)) (collection : Bool) (literal : Option String) :
    FieldSound r own
      { p with union := u, isCollection := collection, defaultLiteral := literal } :=
  ⟨h.imports, hu, h.related, h.enumName⟩

theorem add_builtin {n : String} (h : FieldSound r own p) (hb : Seeded hydra r)
    (hn : n ∈ BaseTypes.builtinNames) : (p.union.add n).Spells (r.Reaches own p.imports) :=
  h.union.add_name (.inl (hb.builtin hn))

theorem withNull (h : FieldSound r own p) (hb : Seeded hydra r) (t : FieldType) :
    FieldSound r own (Model.withNull t p) := by
  unfold Model.withNull
  split
  · exact h.withValue (h.add_builtin hb (by decide)) _ _
  · exact h

end FieldSound

namespace Model

section Ties

variable {cat : Catalog} {r : TypeRegistry} {own c : String} {source : Option String}
  {p : Property} {ref : Referent} {t : TypeEntry} {f n : String}

@[simp] theorem takes_importType : (importType p t).imports.Takes f n ↔
    (t.file = some f ∧ n = t.name) ∨ p.imports.Takes f n := Imports.takes_addFrom

@[simp] theorem takes_importApiType {m : String} : (importApiType p m).imports.Takes f n ↔
    (f = BaseTypes.apiTypesFile ∧ n = m) ∨ p.imports.Takes f n := Imports.takes_add

theorem takes_relate : (relate source c p t).imports.Takes f n ↔
    (t.addressable = true ∧ f = BaseTypes.apiTypesFile ∧ n = "HydraIri") ∨
      (some c ≠ source ∧ t.file = some f ∧ n = t.name) ∨ p.imports.Takes f n := by
  unfold relate
  split <;> split <;> simp_all

theorem takes_tie_of_takes (h : p.imports.Takes f n) : (tie source c p ref).imports.Takes f n := by
  cases ref with
  | model t => exact takes_relate.2 (.inr (.inr h))
  | enumeration t => exact takes_importType.2 (.inr h)
  | datetime => exact takes_importApiType.2 (.inr h)
  | identifier | passthrough => exact h

structure SameValue (p q : Property) : Prop where
  union : q.union = p.union
  isCollection : q.isCollection = p.isCollection
  defaultLiteral : q.defaultLiteral = p.defaultLiteral

theorem sameValue_importType (p : Property) (t : TypeEntry) : SameValue p (importType p t) :=
  ⟨rfl, rfl, rfl⟩

theorem sameValue_relate : SameValue p (relate source c p t) := by
  obtain ⟨hunion, hmark, hdefault⟩ := sameValue_importType { p with related := some t.name } t
  unfold relate
  split <;> split
  · exact ⟨rfl, rfl, rfl⟩
  · exact ⟨rfl, rfl, rfl⟩
  · exact ⟨hunion, hmark, hdefault⟩
  · exact ⟨hunion, hmark, hdefault⟩

theorem sameValue_tie : SameValue p (tie source c p ref) := by
  cases ref with
  | model t => exact sameValue_relate
  | enumeration t =>
    obtain ⟨hunion, hmark, hdefault⟩ := sameValue_importType { p with enumName := some t.name } t
    exact ⟨hunion, hmark, hdefault⟩
  | datetime | identifier | passthrough => exact ⟨rfl, rfl, rfl⟩

theorem sameValue_elementOf : SameValue p (elementOf source c p ref).2 := by
  obtain ⟨hunion, hmark, hdefault⟩ : SameValue p (tie source c p ref) := sameValue_tie
  unfold elementOf
  split <;> exact ⟨hunion, hmark, hdefault⟩

def Owns (r : TypeRegistry) (own : String) (source : Option String) : Prop :=
  ∀ {c t}, source = some c → r.lookupSource c = some t → t.name = own

theorem declares_of_takes_tie {hydra : String} (hb : Seeded hydra r) (hr : Coherent r)
    (href : Refers cat r c ref) (h : (tie source c p ref).imports.Takes f n) :
    r.Declares f n ∨ p.imports.Takes f n := by
  cases href with
  | model _ ht =>
    rcases takes_relate.1 h with ⟨-, rfl, rfl⟩ | ⟨-, hf, rfl⟩ | h
    · exact .inl hb.declares_hydraIri
    · exact .inl ⟨_, (hr.of_lookupSource ht).2.1, hf⟩
    · exact .inr h
  | enumeration _ ht =>
    rcases takes_importType.1 h with ⟨hf, rfl⟩ | h
    · exact .inl ⟨_, (hr.of_lookupSource ht).2.1, hf⟩
    · exact .inr h
  | datetime =>
    rcases takes_importApiType.1 h with ⟨rfl, rfl⟩ | h
    · exact .inl hb.declares_dateTime
    · exact .inr h
  | identifier | passthrough => exact .inr h

theorem imported_enumeration (hr : Coherent r) (ht : r.lookupSource c = some t) :
    r.Imported (tie source c p (.enumeration t)).imports t.name :=
  ⟨t, (hr.of_lookupSource ht).2.1, fun _ hf => takes_importType.2 (.inl ⟨hf, rfl⟩)⟩

theorem reaches_model (hr : Coherent r) (hown : Owns r own source)
    (ht : r.lookupSource c = some t) :
    r.Reaches own (tie source c p (.model t)).imports t.name := by
  have hget := (hr.of_lookupSource ht).2.1
  by_cases hc : some c = source
  · exact .inr ⟨hown hc.symm ht, t, hget⟩
  · exact .inl ⟨t, hget, fun f hf => takes_relate.2 (.inr (.inl ⟨hc, hf, rfl⟩))⟩

theorem alternatives_reached {hydra : String} (hb : Seeded hydra r) (hr : Coherent r)
    (hown : Owns r own source) (href : Refers cat r c ref) :
    ∃ atoms : List Atom, ref.alternatives = atoms.map Atom.text ∧
      ∀ a ∈ atoms, ∀ n ∈ a.names, r.Reaches own (tie source c p ref).imports n := by
  cases href with
  | @model t _ ht =>
    have hname := reaches_model (p := p) hr hown ht
    by_cases ha : t.addressable = true
    · have hiri : r.Reaches own (tie source c p (.model t)).imports "HydraIri" :=
        .inl (hb.declares_hydraIri.imported (takes_relate.2 (.inl ⟨ha, rfl, rfl⟩)))
      refine ⟨[.named t.name, .applied "HydraIri" t.name], ?_, ?_⟩
      · simp only [Referent.alternatives, ha, if_true]
        rfl
      · simpa [Atom.names] using ⟨hname, hiri, hname⟩
    · exact ⟨[.named t.name], by simp [Referent.alternatives, ha, Atom.text],
        by simpa [Atom.names] using hname⟩
  | @enumeration t _ ht =>
    exact ⟨[.named t.name], rfl, by simpa [Atom.names] using .inl (imported_enumeration hr ht)⟩
  | datetime =>
    refine ⟨[.named "DateTime"], rfl, ?_⟩
    simpa [Atom.names] using
      .inl (hb.declares_dateTime.imported (takes_importApiType.2 (.inl ⟨rfl, rfl⟩)))
  | identifier =>
    exact ⟨[.named "string"], rfl, by simpa [Atom.names] using .inl (hb.builtin (by decide))⟩
  | passthrough =>
    exact ⟨[.named "any"], rfl, by simpa [Atom.names] using .inl (hb.builtin (by decide))⟩

@[simp] theorem importType_related : (importType p t).related = p.related := rfl

@[simp] theorem importType_enumName : (importType p t).enumName = p.enumName := rfl

theorem relate_names : (relate source c p t).related = some t.name ∧
    (relate source c p t).enumName = p.enumName := by
  unfold relate
  split <;> split <;> simp [importApiType]

theorem elementOf_text :
    (elementOf source c p ref).1 = String.intercalate "|" ref.alternatives := rfl

theorem elementOf_imports :
    (elementOf source c p ref).2.imports = (tie source c p ref).imports := by
  unfold elementOf
  split <;> rfl

theorem scalar?_mem {b s : String} (h : scalar? b = some s) : s ∈ BaseTypes.builtinNames := by
  unfold scalar? at h
  split at h <;> cases h <;> decide

end Ties
end Model

namespace FieldSound

variable {cat : Catalog} {hydra own c e : String} {r : TypeRegistry} {source : Option String}
  {p q : Property} {ref : Referent} {field : Field} {t : FieldType}

theorem tie (h : FieldSound r own p) (hb : Seeded hydra r) (hr : Coherent r)
    (href : Refers cat r c ref) : FieldSound r own (Model.tie source c p ref) where
  imports hi := (declares_of_takes_tie hb hr href hi).elim id h.imports
  union := by
    rw [sameValue_tie.union]
    exact h.union.mono fun _ hn => hn.mono takes_tie_of_takes
  related {n} hn := by
    cases href with
    | @model t _ ht =>
      obtain rfl := Option.some.inj (relate_names.1.symm.trans hn)
      exact ⟨t, (hr.of_lookupSource ht).2.1⟩
    | enumeration => exact h.related (by simpa [Model.tie] using hn)
    | datetime | identifier | passthrough => exact h.related hn
  enumName {n} hn := by
    cases href with
    | model => exact (h.enumName (relate_names.2.symm.trans hn)).mono takes_tie_of_takes
    | @enumeration t _ ht =>
      obtain rfl := Option.some.inj (importType_enumName.symm.trans hn)
      exact imported_enumeration hr ht
    | datetime => exact (h.enumName hn).mono takes_tie_of_takes
    | identifier | passthrough => exact h.enumName hn

theorem withClass (h : FieldSound r own p) (hb : Seeded hydra r) (hr : Coherent r)
    (hown : Owns r own source) (href : Refers cat r c ref) :
    FieldSound r own (Model.withClass source c p ref) := by
  obtain ⟨atoms, he, hatoms⟩ := alternatives_reached (p := p) hb hr hown href
  have htie : FieldSound r own (Model.tie source c p ref) := h.tie hb hr href
  rw [Model.withClass, he]
  exact htie.withValue ((sameValue_tie.union ▸ htie.union).addAll_atoms hatoms) _ _

theorem elementOf (h : FieldSound r own p) (hb : Seeded hydra r) (hr : Coherent r)
    (href : Refers cat r c ref) : FieldSound r own (Model.elementOf source c p ref).2 := by
  have htie : FieldSound r own (Model.tie source c p ref) := h.tie hb hr href
  unfold Model.elementOf
  split
  · exact ⟨htie.imports, htie.union, htie.related, htie.enumName⟩
  · exact htie

theorem element (h : FieldSound r own p) (hb : Seeded hydra r) (hr : Coherent r)
    (hown : Owns r own source) {value : FieldType} (he : Element cat r source value p e q) :
    FieldSound r own q ∧ ∃ atoms, e = TypeTerm.alternatives atoms ∧
      ∀ a ∈ atoms, ∀ n ∈ a.names, r.Reaches own q.imports n := by
  cases he with
  | scalar hs =>
    exact ⟨h, [.named e], by simp [TypeTerm.alternatives, Atom.text],
      by simpa [Atom.names] using .inl (hb.builtin (scalar?_mem hs))⟩
  | mixed =>
    exact ⟨h, [.named "any"], by simp [TypeTerm.alternatives, Atom.text],
      by simpa [Atom.names] using .inl (hb.builtin (by decide))⟩
  | @related c _ ref _ _ href he =>
    obtain ⟨atoms, ha, hatoms⟩ := alternatives_reached (p := p) hb hr hown href
    have hq : q = (Model.elementOf source (ClassName.relative c) p ref).2 := by rw [he]
    refine ⟨hq ▸ h.elementOf hb hr href, atoms, ?_, ?_⟩
    · have : e = (Model.elementOf source (ClassName.relative c) p ref).1 := by rw [he]
      rw [this, elementOf_text, ha, TypeTerm.alternatives]
    · rw [hq, elementOf_imports]
      exact hatoms

theorem collection (h : FieldSound r own p) {atoms : List Atom}
    (hatoms : ∀ a ∈ atoms, ∀ n ∈ a.names, r.Reaches own p.imports n) :
    FieldSound r own (withCollection t (TypeTerm.alternatives atoms) p) := by
  have hnames : ∀ n ∈ atoms.flatMap Atom.names, r.Reaches own p.imports n := fun n hn => by
    obtain ⟨a, ha, hn⟩ := List.mem_flatMap.1 hn
    exact hatoms a ha n hn
  have hu : (p.union.add (collectionToken t (TypeTerm.alternatives atoms))).Spells
      (r.Reaches own p.imports) := by
    unfold collectionToken
    split
    · exact h.union.add (t := .array atoms) hnames
    · exact h.union.add (t := .dictionary atoms) hnames
  exact h.withValue hu _ _

theorem formed (h : FieldSound r own p) (hb : Seeded hydra r) (hr : Coherent r)
    (hown : Owns r own source) (hq : Formed cat r source field t p q) : FieldSound r own q := by
  have hn := h.withNull hb t
  have hany : r.Reaches own (Model.withNull t p).imports "any" := .inl (hb.builtin (by decide))
  have hstring : r.Reaches own (Model.withNull t p).imports "string" :=
    .inl (hb.builtin (by decide))
  have hnumber : r.Reaches own (Model.withNull t p).imports "number" :=
    .inl (hb.builtin (by decide))
  cases hq with
  | scalar hs _ =>
    exact hn.withValue (hn.add_builtin hb (scalar?_mem hs)) _ _
  | collection _ he =>
    obtain ⟨hq, atoms, rfl, hatoms⟩ := hn.element hb hr hown he
    exact hq.collection hatoms
  | array =>
    have harray : ((Model.withNull t p).union.add "Array<any>").Spells
        (r.Reaches own (Model.withNull t p).imports) :=
      hn.union.add (t := .array [.named "any"]) (by simpa [TypeTerm.names, Atom.names] using hany)
    have hrecord := harray.add (t := .record ["number", "string"] "any")
      (by simpa [TypeTerm.names] using ⟨hnumber, hstring, hany⟩)
    exact hn.withValue hrecord _ _
  | object =>
    have hrecord := hn.union.add (t := .record ["string"] "any")
      (by simpa [TypeTerm.names] using ⟨hstring, hany⟩)
    exact hn.withValue hrecord _ _
  | referring _ href _ => exact hn.withClass hb hr hown href
  | defaulting _ href _ =>
    have := hn.withClass hb hr hown href
    exact this.withValue this.union _ _

theorem built {inherited : Bool} (hb : Seeded hydra r) (hr : Coherent r) (hown : Owns r own source)
    (hp : Built cat r source field inherited p) : FieldSound r own p :=
  Passes.invariant hp (.blank field inherited) fun _ _ _ _ hq hf => hq.formed hb hr hown hf

end FieldSound

end HydraClient
