import HydraClient.Proofs.BuiltProperties

/-! # Defaults of fields

Each form of value in the type of a field may give a literal for the default: the case of an enum,
an empty list for a collection, or the default as it is declared for a scalar. Of these the property
has the one that was given last.
-/
namespace HydraClient

open Metadata TypeRegistry

namespace Model

section Literals

variable (cat : Catalog) (names : String → String) (field : Field)

def enumOf? (t : FieldType) : Option String :=
  match formOf t with
  | .object c =>
    if cat.classify (ClassName.relative c) = .enumeration then some (ClassName.relative c) else none
  | _ => none

def caseLiteral? (t : FieldType) : Option String :=
  (enumOf? cat t).bind fun e =>
    (defaultCase cat e field).toOption.join.map fun case => names e ++ "." ++ case

def emptyLiteral? (t : FieldType) : Option String :=
  match formOf t with
  | .collection _ | .array => some "[]"
  | _ => none

def scalarLiteral? (t : FieldType) : Option String :=
  match formOf t with
  | .scalar _ => (Script.literal field.default).toOption
  | _ => none

def literalOf? (t : FieldType) : Option String :=
  (caseLiteral? cat names field t).or ((emptyLiteral? t).or (scalarLiteral? field t))

def lastLiteral? (types : List FieldType) : Option String :=
  (types.filterMap (literalOf? cat names field)).getLast?

def Enumerates (e : String) : Prop := ∃ t ∈ field.types, enumOf? cat t = some e

end Literals

section Lists

variable {cat : Catalog} {names names' : String → String} {field : Field} {t : FieldType}
  {types : List FieldType}

theorem lastLiteral?_concat : lastLiteral? cat names field (types ++ [t]) =
    (literalOf? cat names field t).or (lastLiteral? cat names field types) := by
  unfold lastLiteral?
  rw [List.filterMap_append, List.filterMap_cons, List.filterMap_nil]
  cases literalOf? cat names field t <;> simp

theorem literalOf?_congr (h : ∀ e, enumOf? cat t = some e → names' e = names e) :
    literalOf? cat names' field t = literalOf? cat names field t := by
  have hcase : caseLiteral? cat names' field t = caseLiteral? cat names field t :=
    Option.bind_congr fun e he => by rw [h e he]
  rw [literalOf?, literalOf?, hcase]

theorem lastLiteral?_congr (h : ∀ t ∈ types, ∀ e, enumOf? cat t = some e → names' e = names e) :
    lastLiteral? cat names' field types = lastLiteral? cat names field types := by
  rw [lastLiteral?, List.filterMap_congr fun t ht => literalOf?_congr (h t ht), lastLiteral?]

end Lists

def nameOf (r : TypeRegistry) (source : String) : String :=
  ((r.lookupSource source).map (·.name)).getD ""

/-- A property has the default of the forms so far, and the enums that these stand for are found. -/
structure Settles (cat : Catalog) (r : TypeRegistry) (field : Field) (types : List FieldType)
    (p : Property) : Prop where
  literal : p.defaultLiteral = lastLiteral? cat (nameOf r) field types
  found : ∀ t ∈ types, ∀ e, enumOf? cat t = some e → ∃ u, r.lookupSource e = some u

section Settles

variable {cat : Catalog} {r r' : TypeRegistry} {field : Field} {types : List FieldType}
  {t : FieldType} {p q : Property}

theorem Settles.of_extends (h : Settles cat r field types p) (hr : Extends r r') :
    Settles cat r' field types p where
  literal := by
    rw [h.literal]
    refine (lastLiteral?_congr fun t ht e he => ?_).symm
    obtain ⟨u, hu⟩ := h.found t ht e he
    rw [nameOf, nameOf, hu, hr.lookupSource hu]
  found t ht e he := by
    obtain ⟨u, hu⟩ := h.found t ht e he
    exact ⟨u, hr.lookupSource hu⟩

theorem Settles.add (h : Settles cat r field types p)
    (hq : q.defaultLiteral = (literalOf? cat (nameOf r) field t).or p.defaultLiteral)
    (hfound : ∀ e, enumOf? cat t = some e → ∃ u, r.lookupSource e = some u) :
    Settles cat r field (types ++ [t]) q where
  literal := by rw [hq, h.literal, lastLiteral?_concat]
  found u hu := by
    rcases List.mem_append.1 hu with hu | hu
    · exact h.found u hu
    · exact List.mem_singleton.1 hu ▸ hfound

variable {visit : String → Drafting TypeEntry} {owner : TypeEntry} {file : String}
  {s s' : Draft} (hv : ∀ c, Finds cat (visit c) c) (ho : owner.file = some file)
  (hf : Houses cat file) (hs : Coherent s.types)

include hv ho hf hs

theorem literal_of_applyClass {c : String} (hform : formOf t = .object c)
    (h : Yields (applyClass cat visit owner field c p) s q s') :
    q.defaultLiteral = (literalOf? cat (nameOf s'.types) field t).or p.defaultLiteral ∧
      ∀ e, enumOf? cat t = some e → ∃ u, s'.types.lookupSource e = some u := by
  obtain ⟨ref, m, href, h⟩ := Yields.bind_iff.1 h
  obtain ⟨-, hrefers⟩ := refer_refers hv ho hf hs href
  have hkept : (withClass owner.source (ClassName.relative c) p ref).defaultLiteral =
      p.defaultLiteral := sameValue_tie.defaultLiteral
  cases hrefers with
  | @enumeration u hc hu =>
    obtain ⟨case?, hcase, h⟩ := Yields.lift_bind.1 h
    have henum : enumOf? cat t = some (ClassName.relative c) := by simp [enumOf?, hform, hc]
    have hliteral : literalOf? cat (nameOf m.types) field t = case?.map (u.name ++ "." ++ ·) := by
      simp [literalOf?, caseLiteral?, emptyLiteral?, scalarLiteral?, henum, hform, hcase, nameOf,
        hu, Except.toOption]
    cases case? <;>
    · obtain ⟨rfl, rfl⟩ := Yields.pure_iff.1 h
      refine ⟨by simp [hliteral, hkept], fun e he => ?_⟩
      obtain rfl := Option.some.inj (henum.symm.trans he)
      exact ⟨u, hu⟩
  | model hc | datetime hc | identifier hc | passthrough hc =>
    obtain ⟨rfl, rfl⟩ := Yields.pure_iff.1 h
    have henum : enumOf? cat t = none := by simp [enumOf?, hform, hc]
    refine ⟨?_, by simp [henum]⟩
    simp [literalOf?, caseLiteral?, emptyLiteral?, scalarLiteral?, henum, hform, hkept]

theorem literal_of_applyType (h : Yields (applyType cat visit owner field p t) s q s') :
    q.defaultLiteral = (literalOf? cat (nameOf s'.types) field t).or p.defaultLiteral ∧
      ∀ e, enumOf? cat t = some e → ∃ u, s'.types.lookupSource e = some u := by
  rw [applyType_eq] at h
  have hnull : (withNull t p).defaultLiteral = p.defaultLiteral := by
    rw [withNull_eq]
  rw [← hnull]
  generalize withNull t p = p' at h
  cases hform : formOf t with
  | scalar word =>
    simp only [hform] at h
    obtain ⟨literal, hliteral, h⟩ := Yields.lift_bind.1 h
    obtain ⟨rfl, rfl⟩ := Yields.pure_iff.1 h
    refine ⟨?_, by simp [enumOf?, hform]⟩
    simp [literalOf?, caseLiteral?, enumOf?, emptyLiteral?, scalarLiteral?, hform, hliteral,
      Except.toOption]
  | collection value =>
    simp only [hform] at h
    obtain ⟨⟨e, q'⟩, m, -, h⟩ := Yields.bind_iff.1 h
    obtain ⟨rfl, rfl⟩ := Yields.pure_iff.1 h
    refine ⟨?_, by simp [enumOf?, hform]⟩
    simp [literalOf?, caseLiteral?, enumOf?, emptyLiteral?, hform, withCollection]
  | array | record =>
    simp only [hform] at h
    obtain ⟨rfl, rfl⟩ := Yields.pure_iff.1 h
    refine ⟨?_, by simp [enumOf?, hform]⟩
    simp [literalOf?, caseLiteral?, enumOf?, emptyLiteral?, scalarLiteral?, hform]
  | object c =>
    simp only [hform] at h
    exact literal_of_applyClass hv ho hf hs hform h
  | unknown =>
    simp only [hform] at h
    exact absurd h Yields.not_throw

theorem settles_of_buildProperty {inherited : Bool}
    (h : Yields (buildProperty cat visit owner field inherited) s p s') :
    Settles cat s'.types field field.types p := by
  have hpass := (Yields.foldlM_pass h).prefix_invariant
    (I := fun before x => Coherent x.2.types ∧ Settles cat x.2.types field before x.1)
    ⟨hs, rfl, nofun⟩ fun before t after x y _ hx hstep => by
      obtain ⟨hextracted, -⟩ := formed_of_applyType hv ho hf hx.1 hstep
      obtain ⟨hliteral, hfound⟩ := literal_of_applyType hv ho hf hx.1 hstep
      exact ⟨hextracted.coherent hx.1, (hx.2.of_extends hextracted.kept).add hliteral hfound⟩
  exact hpass.2

end Settles
end Model

open Model

namespace TypeRegistry

variable {r : TypeRegistry} {s : String}

theorem Coherent.files (h : Coherent r) (ht : ∃ t, r.lookupSource s = some t) :
    r.Files s (Model.nameOf r s) := by
  obtain ⟨t, ht⟩ := ht
  obtain ⟨-, hget, hs⟩ := h.of_lookupSource ht
  exact ⟨t, by rw [Model.nameOf, ht, Option.map_some, Option.getD_some, hget], hs⟩

end TypeRegistry

/-- A property has the last default that a form of its field gives. -/
def Defaulted (cat : Catalog) (r : TypeRegistry) (c : String) (p : Property) : Prop :=
  ∃ f names, cat.HasField c f ∧ f.name = p.name ∧
    (∀ e, Enumerates cat f e → r.Files e (names e)) ∧
    p.defaultLiteral = lastLiteral? cat names f f.types

/-- Every property has the last default that a form of its field gives. -/
theorem abiding_defaulted (cat : Catalog) : Abiding cat (Defaulted cat) where
  built hv hs ho hmem hexposed hbuild hm := by
    obtain ⟨-, hbuilt⟩ := built_of_buildProperty hv rfl ho.houses hs hbuild
    have hsettles := settles_of_buildProperty hv rfl ho.houses hs hbuild
    refine ⟨_, nameOf _, ⟨_, ho.described, hmem, hexposed⟩, hbuilt.sameField.name.symm, ?_,
      hsettles.literal⟩
    rintro e ⟨t, ht, he⟩
    exact hm.files (hsettles.found t ht e he)
  put := by
    rintro r t c p ⟨g, names, hg, hname, hfiles, hp⟩ hheld
    exact ⟨g, names, hg, hname, fun e he => (hfiles e he).put hheld, hp⟩
  modify := by
    rintro r name c f p ⟨g, names, hg, hname, hfiles, hp⟩ hf
    exact ⟨g, names, hg, hname, fun e he => (hfiles e he).modify hf, hp⟩

/-- After a run, the property of a field has the last default that a form of the field gives. -/
theorem Extracts.exists_default {doc : Document} {disk : Disk} {d : Draft} {n c : String}
    {t : TypeEntry} {f : Field} (hdistinct : doc.FieldsDistinct)
    (h : Extracts (.ofDocument doc) disk d) (ht : d.types.get? n = some t)
    (hmade : t.hasFactory = true) (hs : t.source = some c)
    (hf : (Catalog.ofDocument doc).HasField c f) :
    ∃ p names, t.properties.get? f.name = some p ∧
      (∀ e, Enumerates (.ofDocument doc) f e → d.types.Files e (names e)) ∧
      p.defaultLiteral = lastLiteral? (.ofDocument doc) names f f.types := by
  obtain ⟨seeded, modeled, served, hp⟩ := h.phased
  obtain ⟨-, hkeys⟩ := (Inheritance.building_of_phased hp).whole ht hmade hs (by simp)
  obtain ⟨p, hp'⟩ := OrderedMap.mem_keys_iff.1 (hkeys f.name ⟨f, hf, rfl⟩)
  obtain ⟨hname, g, names, hg, hgname, hfiles, hliteral⟩ :=
    ((abiding_defaulted _).of_phased hp).holds ht hmade hs hp'
  obtain rfl := hf.unique hdistinct hg (hname.symm.trans hgname.symm)
  exact ⟨p, names, hp', hfiles, hliteral⟩

end HydraClient
