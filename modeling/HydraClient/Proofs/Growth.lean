import HydraClient.Operations
import HydraClient.Proofs.Registration
import HydraClient.Proofs.Work
import Mathlib.Logic.Relation

/-! # Growth of the registry

Every way in which a run changes the registry once the base types stand in it. A class is opened,
then given its parents and filled field by field; an enum arrives whole, and so does an interface of
query parameters, which alone may take the place of an earlier one.
-/
namespace HydraClient

open Metadata TypeRegistry

namespace Model

variable {cat : Catalog} {r r' : TypeRegistry}

inductive Refers (cat : Catalog) (r : TypeRegistry) (c : String) : Referent → Prop where
  | model {t : TypeEntry} :
      cat.classify c = .model → r.lookupSource c = some t → Refers cat r c (.model t)
  | enumeration {t : TypeEntry} :
      cat.classify c = .enumeration → r.lookupSource c = some t → Refers cat r c (.enumeration t)
  | datetime : cat.classify c = .datetime → Refers cat r c .datetime
  | identifier : cat.classify c = .identifier → Refers cat r c .identifier
  | passthrough : cat.classify c = .passthrough → Refers cat r c .passthrough

/-- The element type of a collection, and a property with what the element adds. -/
inductive Element (cat : Catalog) (r : TypeRegistry) (source : Option String) (value : FieldType)
    (p : Property) : String → Property → Prop where
  | scalar {s : String} : scalar? value.builtin = some s → Element cat r source value p s p
  | mixed : Element cat r source value p "any" p
  | related {c e : String} {ref : Referent} {q : Property} : value.className = some c →
      Refers cat r (ClassName.relative c) ref →
      elementOf source (ClassName.relative c) p ref = (e, q) →
      Element cat r source value p e q

inductive Formed (cat : Catalog) (r : TypeRegistry) (source : Option String) (field : Field)
    (t : FieldType) (p : Property) : Property → Prop where
  | scalar {s literal : String} : scalar? t.builtin = some s →
      Script.literal field.default = .ok literal →
      Formed cat r source field t p { withNull t p with
        union := (withNull t p).union.add s
        defaultLiteral := some literal }
  | collection {value : FieldType} {e : String} {q : Property} : t.value = some value →
      Element cat r source value (withNull t p) e q →
      Formed cat r source field t p (withCollection t e q)
  | array : Formed cat r source field t p { withNull t p with
      union := ((withNull t p).union.add "Array<any>").add "Record<number|string, any>"
      isCollection := true
      defaultLiteral := some "[]" }
  | object : Formed cat r source field t p { withNull t p with
      union := (withNull t p).union.add "Record<string, any>" }
  | referring {c : String} {ref : Referent} : t.className = some c →
      Refers cat r (ClassName.relative c) ref →
      (∀ e, ref = .enumeration e → defaultCase cat (ClassName.relative c) field = .ok none) →
      Formed cat r source field t p (withClass source (ClassName.relative c) (withNull t p) ref)
  | defaulting {c case : String} {e : TypeEntry} : t.className = some c →
      Refers cat r (ClassName.relative c) (.enumeration e) →
      defaultCase cat (ClassName.relative c) field = .ok (some case) →
      Formed cat r source field t p
        { withClass source (ClassName.relative c) (withNull t p) (.enumeration e) with
          defaultLiteral := some (e.name ++ "." ++ case) }

def Built (cat : Catalog) (r : TypeRegistry) (source : Option String) (field : Field)
    (inherited : Bool) (p : Property) : Prop :=
  Passes (Formed cat r source field) field.types (blank field inherited) p

theorem Refers.of_extends {c : String} {ref : Referent} (h : Refers cat r c ref)
    (hr : Extends r r') : Refers cat r' c ref := by
  cases h with
  | model hc ht => exact .model hc (hr.lookupSource ht)
  | enumeration hc ht => exact .enumeration hc (hr.lookupSource ht)
  | datetime hc => exact .datetime hc
  | identifier hc => exact .identifier hc
  | passthrough hc => exact .passthrough hc

theorem Element.of_extends {source : Option String} {value : FieldType} {p q : Property}
    {e : String} (h : Element cat r source value p e q) (hr : Extends r r') :
    Element cat r' source value p e q := by
  cases h with
  | scalar hs => exact .scalar hs
  | mixed => exact .mixed
  | related hc href he => exact .related hc (href.of_extends hr) he

theorem Formed.of_extends {source : Option String} {field : Field} {t : FieldType}
    {p q : Property} (h : Formed cat r source field t p q) (hr : Extends r r') :
    Formed cat r' source field t p q := by
  cases h with
  | scalar hs hl => exact .scalar hs hl
  | collection hv he => exact .collection hv (he.of_extends hr)
  | array => exact .array
  | object => exact .object
  | referring hc href hd => exact .referring hc (href.of_extends hr) hd
  | defaulting hc href hd => exact .defaulting hc (href.of_extends hr) hd

/-- What a property has from its field alone. -/
structure SameField (p q : Property) : Prop where
  name : q.name = p.name
  required : q.required = p.required
  readOnly : q.readOnly = p.readOnly
  inherited : q.inherited = p.inherited
  schema : q.schema = p.schema

theorem SameField.refl (p : Property) : SameField p p := ⟨rfl, rfl, rfl, rfl, rfl⟩

theorem SameField.trans {p q q' : Property} (h : SameField p q) (h' : SameField q q') :
    SameField p q' :=
  ⟨h'.name.trans h.name, h'.required.trans h.required, h'.readOnly.trans h.readOnly,
    h'.inherited.trans h.inherited, h'.schema.trans h.schema⟩

theorem sameField_value (p : Property) (u : TypeUnion) (collection : Bool)
    (literal : Option String) : SameField p
      { p with union := u, isCollection := collection, defaultLiteral := literal } :=
  ⟨rfl, rfl, rfl, rfl, rfl⟩

theorem sameField_withNull (t : FieldType) (p : Property) : SameField p (withNull t p) := by
  unfold withNull
  split
  · exact sameField_value p _ _ _
  · exact .refl p

theorem sameField_withCollection (t : FieldType) (e : String) (p : Property) :
    SameField p (withCollection t e p) := sameField_value p _ _ _

theorem sameField_importType (p : Property) (t : TypeEntry) : SameField p (importType p t) :=
  ⟨rfl, rfl, rfl, rfl, rfl⟩

theorem sameField_relate (source : Option String) (c : String) (p : Property) (t : TypeEntry) :
    SameField p (relate source c p t) := by
  have h : SameField p { p with related := some t.name } := ⟨rfl, rfl, rfl, rfl, rfl⟩
  unfold relate
  split <;> split
  · exact h.trans ⟨rfl, rfl, rfl, rfl, rfl⟩
  · exact h
  · exact (h.trans (sameField_importType _ t)).trans ⟨rfl, rfl, rfl, rfl, rfl⟩
  · exact h.trans (sameField_importType _ t)

theorem sameField_tie (source : Option String) (c : String) (p : Property) (ref : Referent) :
    SameField p (tie source c p ref) := by
  cases ref with
  | model t => exact sameField_relate source c p t
  | enumeration t =>
    have h : SameField p { p with enumName := some t.name } := ⟨rfl, rfl, rfl, rfl, rfl⟩
    exact h.trans (sameField_importType _ t)
  | datetime => exact ⟨rfl, rfl, rfl, rfl, rfl⟩
  | identifier => exact .refl p
  | passthrough => exact .refl p

theorem sameField_elementOf (source : Option String) (c : String) (p : Property) (ref : Referent) :
    SameField p (elementOf source c p ref).2 := by
  have h := sameField_tie source c p ref
  unfold elementOf
  split
  · exact h.trans ⟨rfl, rfl, rfl, rfl, rfl⟩
  · exact h

theorem sameField_withClass (source : Option String) (c : String) (p : Property) (ref : Referent) :
    SameField p (withClass source c p ref) := by
  exact (sameField_tie source c p ref).trans (sameField_value _ _ _ _)

theorem Element.sameField {source : Option String} {value : FieldType} {p q : Property}
    {e : String} (h : Element cat r source value p e q) : SameField p q := by
  cases h with
  | scalar => exact .refl p
  | mixed => exact .refl p
  | @related c _ ref _ _ _ he =>
    have := sameField_elementOf source (ClassName.relative c) p ref
    rwa [he] at this

theorem Formed.sameField {source : Option String} {field : Field} {t : FieldType}
    {p q : Property} (h : Formed cat r source field t p q) : SameField p q := by
  have hn := sameField_withNull t p
  cases h with
  | scalar => exact hn.trans (sameField_value _ _ _ _)
  | collection _ he => exact (hn.trans he.sameField).trans (sameField_withCollection _ _ _)
  | array => exact hn.trans (sameField_value _ _ _ _)
  | object => exact hn.trans (sameField_value _ _ _ _)
  | referring => exact hn.trans (sameField_withClass _ _ _ _)
  | defaulting =>
    exact (hn.trans (sameField_withClass _ _ _ _)).trans (sameField_value _ _ _ _)

theorem Built.sameField {source : Option String} {field : Field} {inherited : Bool} {p : Property}
    (h : Built cat r source field inherited p) : SameField (blank field inherited) p :=
  Passes.trans (T := SameField) h SameField.refl (fun h h' => h.trans h')
    fun _ _ _ _ hf => Formed.sameField hf

/-- A name at which a class stands open, or closed again. -/
structure Opened (cat : Catalog) (r : TypeRegistry) (name className : String)
    (shape : ClassDecl) : Prop where
  described : cat.class? className = some shape
  candidate : name ∈ nameCandidates cat.config shape
  indexed : r.sources.get? className = some name
  registered : ∃ t, r.get? name = some t ∧ t.head = (bare name className shape).head

@[simp] theorem head_withParent (p t : TypeEntry) : (withParent p t).head = t.head := by
  simp only [withParent, TypeEntry.head_addImport]
  rfl

@[simp] theorem head_withAddress (t : TypeEntry) : (withAddress t).head = t.head := rfl

def parentOf (cat : Catalog) (r : TypeRegistry) (shape : ClassDecl) : Option TypeEntry :=
  match shape.parent with
  | none => none
  | some parent =>
    if parent = "" || cat.classify parent != .model then none else r.lookupSource parent

theorem lookupSource_of_parentOf {shape : ClassDecl} {p : TypeEntry}
    (h : parentOf cat r shape = some p) :
    ∃ c, cat.classify c = .model ∧ r.lookupSource c = some p := by
  unfold parentOf at h
  split at h
  · cases h
  · rename_i c _
    split at h
    · cases h
    · rename_i hc
      simp only [Bool.or_eq_true, decide_eq_true_eq, bne_iff_ne, not_or] at hc
      exact ⟨c, Decidable.not_not.1 hc.2, h⟩

theorem Opened.of_extends {name className : String} {shape : ClassDecl}
    (h : Opened cat r name className shape) (hr : Extends r r') :
    Opened cat r' name className shape := by
  obtain ⟨t, ht, e⟩ := h.registered
  exact ⟨h.described, h.candidate, hr.sources h.indexed, t, hr.entries ht, e⟩

theorem Opened.modify {name className : String} {shape : ClassDecl} {f : TypeEntry → TypeEntry}
    (h : Opened cat r name className shape) (hf : ∀ t, (f t).head = t.head) :
    Opened cat (r.modify name f) name className shape := by
  obtain ⟨t, ht, e⟩ := h.registered
  exact ⟨h.described, h.candidate, h.indexed, f t, by simp [get?_modify, ht], (hf t).trans e⟩

/-- Whether a file is that of an interface which a described class may become. -/
def Houses (cat : Catalog) (file : String) : Prop :=
  ∃ className shape, cat.class? className = some shape ∧
    ∃ name ∈ nameCandidates cat.config shape, file = "interfaces/" ++ name

theorem Houses.ne_empty {file : String} (h : Houses cat file) : file ≠ "" := by
  obtain ⟨_, _, -, name, -, rfl⟩ := h
  simp

theorem Opened.houses {name className : String} {shape : ClassDecl}
    (h : Opened cat r name className shape) : Houses cat ("interfaces/" ++ name) :=
  ⟨className, shape, h.described, name, h.candidate, rfl⟩

theorem Opened.lookupSource {name className : String} {shape : ClassDecl}
    (h : Opened cat r name className shape) :
    ∃ t, r.lookupSource className = some t ∧ r.get? name = some t := by
  obtain ⟨t, ht, -⟩ := h.registered
  exact ⟨t, lookupSource_eq_some.2 ⟨name, h.indexed, ht⟩, ht⟩

end Model

namespace Operations

def listType (c : Config) (entry : EndpointEntry) (resource : TypeEntry) (e : Exposure)
    (o : Operation) (d : Derivation) : TypeEntry :=
  { listBase c entry resource e o with
    imports := d.imports
    properties := listProperties d.fields }

theorem listType_head (c : Config) (entry : EndpointEntry) (resource : TypeEntry) (e : Exposure)
    (o : Operation) (d : Derivation) : (listType c entry resource e o d).head = {
      name := listParamsName resource.name
      kind := .interface
      file := some entry.file
      source := some (listSource entry.source) } := by
  unfold listType listBase
  cases resource.file <;> split <;> rfl

@[simp] theorem listType_name {c : Config} {entry : EndpointEntry} {resource : TypeEntry}
    {e : Exposure} {o : Operation} {d : Derivation} :
    (listType c entry resource e o d).name = listParamsName resource.name :=
  (congrArg TypeEntry.name (listType_head c entry resource e o d) :)

@[simp] theorem listType_source {c : Config} {entry : EndpointEntry} {resource : TypeEntry}
    {e : Exposure} {o : Operation} {d : Derivation} :
    (listType c entry resource e o d).source = some (listSource entry.source) :=
  (congrArg TypeEntry.source (listType_head c entry resource e o d) :)

end Operations

open Model Operations

inductive Growth (cat : Catalog) : TypeRegistry → TypeRegistry → Prop where
  | opened {r : TypeRegistry} {name className : String} {shape : ClassDecl} :
      cat.class? className = some shape → r.lookupSource className = none →
      r.resolveName (nameCandidates cat.config shape) className = .ok name →
      Growth cat r (r.put (bare name className shape))
  | enumerated {r : TypeRegistry} {name className file : String} {shape : EnumDecl} :
      cat.enum? className = some shape → cat.classify className = .enumeration →
      r.lookupSource className = none →
      r.resolveName (enumCandidates className) className = .ok name → Houses cat file →
      Growth cat r (r.put (nativeEnum name className file shape))
  | extended {r : TypeRegistry} {name className : String} {shape : ClassDecl} {p : TypeEntry} :
      Opened cat r name className shape → parentOf cat r shape = some p →
      Growth cat r (r.modify name (withParent p))
  | addressed {r : TypeRegistry} {name className : String} {shape : ClassDecl} :
      Opened cat r name className shape → shape.isAddressable = true →
      Growth cat r (r.modify name withAddress)
  | filled {r : TypeRegistry} {name className : String} {shape : ClassDecl} {field : Field}
      {p : Property} : Opened cat r name className shape →
      field ∈ shape.fields → field.isExposed = true →
      Built cat r (some className) field (isInherited className field (parentOf cat r shape)) p →
      ((shape.fields.map (·.name)).Nodup →
        ∀ t, r.get? name = some t → t.properties.get? field.name = none) →
      Growth cat r (r.modify name (·.addProperty p))
  | listed {r : TypeRegistry} {entry : EndpointEntry} {shape : ClassDecl} {resource : TypeEntry}
      {e : Exposure} {o : Operation} {d : Derivation} : entry.source ∈ cat.resources →
      cat.class? entry.source = some shape → e ∈ shape.exposures → o ∈ e.operations →
      r.lookupSource entry.source = some resource → entry.name = resource.name →
      entry.file = "endpoint/" ++ resource.name →
      Yields (deriveFields cat r resource o)
        ⟨(pagingFields cat.config e o).1, (listBase cat.config entry resource e o).imports⟩ ⟨⟩ d →
      (∀ held, r.get? (listParamsName resource.name) = some held →
        held.source = some (listSource entry.source)) →
      Growth cat r (r.put (listType cat.config entry resource e o d))

abbrev Grows (cat : Catalog) : TypeRegistry → TypeRegistry → Prop :=
  Relation.ReflTransGen (Growth cat)

end HydraClient
