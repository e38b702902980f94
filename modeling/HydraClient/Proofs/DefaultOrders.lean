import HydraClient.Proofs.Defaults
import HydraClient.Proofs.Hidden

/-! # Orders of types

The case of an enum is meant to be the default before an empty list, and that before the default of
a scalar. A property has the default that was given last, so that depends on the order of the types,
unless all types that give a default give the same.
-/
namespace HydraClient

open Metadata TypeRegistry Model

theorem findSome?_perm {α β : Type} {f : α → Option β} {l l' : List α} (h : l.Perm l')
    (hone : ∀ a ∈ l, ∀ b ∈ l, ∀ x y, f a = some x → f b = some y → x = y) :
    l.findSome? f = l'.findSome? f := by
  cases hx : l.findSome? f with
  | none =>
    rw [List.findSome?_eq_none_iff] at hx
    exact (List.findSome?_eq_none_iff.2 fun a ha => hx a (h.mem_iff.2 ha)).symm
  | some x =>
    obtain ⟨a, ha, hfa⟩ := List.exists_of_findSome?_eq_some hx
    cases hy : l'.findSome? f with
    | none =>
      rw [List.findSome?_eq_none_iff] at hy
      exact absurd (hfa.symm.trans (hy a (h.mem_iff.1 ha))) nofun
    | some y =>
      obtain ⟨b, hb, hfb⟩ := List.exists_of_findSome?_eq_some hy
      rw [hone a ha b (h.mem_iff.2 hb) x y hfa hfb]

namespace Model

section Ranks

variable (cat : Catalog) (names : String → String) (field : Field)

/-- A case comes first, then an empty list, then a scalar. -/
def rankedLiteral? (types : List FieldType) : Option String :=
  (types.findSome? (caseLiteral? cat names field)).or
    ((types.findSome? emptyLiteral?).or (types.findSome? (scalarLiteral? field)))

/-- All forms that give a literal give the one that ranks first. -/
def Agreed (types : List FieldType) : Prop :=
  ∀ t ∈ types, ∀ x, literalOf? cat names field t = some x →
    rankedLiteral? cat names field types = some x

end Ranks

section Orders

variable {cat : Catalog} {names : String → String} {field : Field} {t : FieldType}
  {types types' : List FieldType} {x : String}

theorem literalOf?_eq_some_iff : literalOf? cat names field t = some x ↔
    caseLiteral? cat names field t = some x ∨ emptyLiteral? t = some x ∨
      scalarLiteral? field t = some x := by
  unfold literalOf? caseLiteral? enumOf? emptyLiteral? scalarLiteral?
  cases formOf t <;> simp

theorem exists_of_rankedLiteral? (h : rankedLiteral? cat names field types = some x) :
    ∃ t ∈ types, literalOf? cat names field t = some x := by
  rw [rankedLiteral?, Option.or_eq_some_iff, Option.or_eq_some_iff] at h
  rcases h with h | ⟨-, h | ⟨-, h⟩⟩
  all_goals
    obtain ⟨t, ht, hx⟩ := List.exists_of_findSome?_eq_some h
    exact ⟨t, ht, literalOf?_eq_some_iff.2 (by simp [hx])⟩

theorem enumOf?_unique {e e' : String} {u : FieldType}
    (hone : (types.filterMap (enumOf? cat)).length ≤ 1) (ht : t ∈ types) (hu : u ∈ types)
    (he : enumOf? cat t = some e) (he' : enumOf? cat u = some e') : e = e' := by
  have hmem : e ∈ types.filterMap (enumOf? cat) := List.mem_filterMap.2 ⟨t, ht, he⟩
  have hmem' : e' ∈ types.filterMap (enumOf? cat) := List.mem_filterMap.2 ⟨u, hu, he'⟩
  match hlist : types.filterMap (enumOf? cat), hone with
  | [], _ => simp [hlist] at hmem
  | [y], _ =>
    rw [hlist, List.mem_singleton] at hmem hmem'
    exact hmem.trans hmem'.symm

/-- With one enum at most, the order of the forms makes no difference to what ranks first. -/
theorem rankedLiteral?_perm (hone : (types.filterMap (enumOf? cat)).length ≤ 1)
    (h : types.Perm types') :
    rankedLiteral? cat names field types = rankedLiteral? cat names field types' := by
  have hcase : types.findSome? (caseLiteral? cat names field) =
      types'.findSome? (caseLiteral? cat names field) := by
    refine findSome?_perm h fun t ht u hu x y hx hy => ?_
    obtain ⟨e, he, hx⟩ := Option.bind_eq_some_iff.1 hx
    obtain ⟨e', he', hy⟩ := Option.bind_eq_some_iff.1 hy
    obtain rfl := enumOf?_unique hone ht hu he he'
    exact Option.some.inj (hx.symm.trans hy)
  have hempty : types.findSome? emptyLiteral? = types'.findSome? emptyLiteral? := by
    refine findSome?_perm h fun t _ u _ x y hx hy => ?_
    unfold emptyLiteral? at hx hy
    split at hx <;> split at hy <;> simp_all
  have hscalar : types.findSome? (scalarLiteral? field) =
      types'.findSome? (scalarLiteral? field) := by
    refine findSome?_perm h fun t _ u _ x y hx hy => ?_
    unfold scalarLiteral? at hx hy
    split at hx <;> split at hy <;> simp_all
  rw [rankedLiteral?, rankedLiteral?, hcase, hempty, hscalar]

theorem lastLiteral?_of_agreed (h : Agreed cat names field types) (hp : types'.Perm types) :
    lastLiteral? cat names field types' = rankedLiteral? cat names field types := by
  cases hx : lastLiteral? cat names field types' with
  | none =>
    rw [lastLiteral?, List.getLast?_eq_none_iff, List.filterMap_eq_nil_iff] at hx
    cases hy : rankedLiteral? cat names field types with
    | none => rfl
    | some y =>
      obtain ⟨t, ht, hty⟩ := exists_of_rankedLiteral? hy
      rw [hx t (hp.mem_iff.2 ht)] at hty
      cases hty
  | some x =>
    obtain ⟨t, ht, htx⟩ := List.mem_filterMap.1 (List.mem_of_getLast? hx)
    exact (h t (hp.mem_iff.1 ht) x htx).symm

/-- Every order of the forms leads to the literal that ranks first just if they agree on it. -/
theorem agreed_iff : Agreed cat names field types ↔ ∀ types', types'.Perm types →
    lastLiteral? cat names field types' = rankedLiteral? cat names field types := by
  refine ⟨fun h types' hp => lastLiteral?_of_agreed h hp, fun h t ht x hx => ?_⟩
  obtain ⟨before, after, rfl⟩ := List.append_of_mem ht
  have hlast := h (before ++ after ++ [t])
    ((List.append_assoc before after [t] ▸ (List.perm_append_singleton t after).append_left before))
  rw [lastLiteral?_concat, hx, Option.some_or] at hlast
  exact hlast.symm

end Orders
end Model

namespace Metadata

variable {order : Field → List FieldType}

def Field.reorder (order : Field → List FieldType) (f : Field) : Field :=
  { f with types := order f }

def ClassDecl.reorder (order : Field → List FieldType) (shape : ClassDecl) : ClassDecl :=
  { shape with fields := shape.fields.map (·.reorder order) }

def Document.reorder (order : Field → List FieldType) (doc : Document) : Document :=
  { doc with classes := doc.classes.map (·.reorder order) }

theorem Document.FieldsDistinct.reorder {doc : Document} (h : doc.FieldsDistinct) :
    (doc.reorder order).FieldsDistinct := by
  intro shape' hshape'
  obtain ⟨shape, hshape, rfl⟩ := List.mem_map.1 hshape'
  have hnames : (shape.fields.map (·.reorder order)).map (·.name) = shape.fields.map (·.name) := by
    rw [List.map_map]
    rfl
  exact hnames.symm ▸ h shape hshape

end Metadata

namespace Catalog

variable {doc : Document} {order : Field → List FieldType} {c : String} {f : Field}

theorem classes_reorder : (ofDocument (doc.reorder order)).classes =
    (ofDocument doc).classes.mapValues fun _ => ClassDecl.reorder order := by
  rw [ofDocument, ofDocument, ← OrderedMap.ofList_map, Document.reorder, List.map_map,
    List.map_map]
  rfl

theorem HasField.reorder (h : (ofDocument doc).HasField c f) :
    (ofDocument (doc.reorder order)).HasField c (f.reorder order) := by
  obtain ⟨shape, hc, hf, hexposed⟩ := h
  refine ⟨shape.reorder order, ?_, List.mem_map_of_mem hf, hexposed⟩
  rw [class?, classes_reorder, OrderedMap.get?_mapValues]
  exact congrArg (Option.map _) hc

theorem classify_reorder :
    (ofDocument (doc.reorder order)).classify c = (ofDocument doc).classify c := by
  have hcontains : (ofDocument (doc.reorder order)).classes.contains (ClassName.relative c) =
      (ofDocument doc).classes.contains (ClassName.relative c) := by
    rw [Bool.eq_iff_iff, OrderedMap.contains_iff, OrderedMap.contains_iff, classes_reorder,
      OrderedMap.keys_mapValues]
  rw [classify, classify, hcontains]
  rfl

end Catalog

namespace Model

variable {doc : Document} {order : Field → List FieldType} {f : Field}

theorem enumOf?_reorder :
    enumOf? (.ofDocument (doc.reorder order)) = enumOf? (.ofDocument doc) := by
  funext t
  simp only [enumOf?, Catalog.classify_reorder]

theorem lastLiteral?_reorder {names : String → String} :
    lastLiteral? (.ofDocument (doc.reorder order)) names (f.reorder order) =
      lastLiteral? (.ofDocument doc) names f := by
  have hcase : caseLiteral? (.ofDocument (doc.reorder order)) names (f.reorder order) =
      caseLiteral? (.ofDocument doc) names f := by
    funext t
    rw [caseLiteral?, enumOf?_reorder]
    rfl
  have hliteral : literalOf? (.ofDocument (doc.reorder order)) names (f.reorder order) =
      literalOf? (.ofDocument doc) names f := by
    funext t
    rw [literalOf?, hcase]
    rfl
  funext types
  rw [lastLiteral?, hliteral, lastLiteral?]

end Model

/-- The default of a property is the last that a form of its field gives, in one order of the types
as in another. Of one enum at most, what ranks first is the same in every order, and every order
leads to it just if all forms that give a default agree. Then the default is the same in two runs
that name the enum alike. -/
theorem default_reordered {doc : Document} {order : Field → List FieldType} {disk disk' : Disk}
    {d d' : Draft} {n n' c : String} {t t' : TypeEntry} {f : Field}
    (hdistinct : doc.FieldsDistinct) (horder : ∀ g, (order g).Perm g.types)
    (h : Extracts (.ofDocument doc) disk d)
    (h' : Extracts (.ofDocument (doc.reorder order)) disk' d')
    (ht : d.types.get? n = some t) (hmade : t.hasFactory = true) (hs : t.source = some c)
    (ht' : d'.types.get? n' = some t') (hmade' : t'.hasFactory = true) (hs' : t'.source = some c)
    (hf : (Catalog.ofDocument doc).HasField c f)
    (hone : (f.types.filterMap (enumOf? (.ofDocument doc))).length ≤ 1) :
    ∃ p p' names names', t.properties.get? f.name = some p ∧ t'.properties.get? f.name = some p' ∧
      (∀ e, Enumerates (.ofDocument doc) f e →
        d.types.Files e (names e) ∧ d'.types.Files e (names' e)) ∧
      p.defaultLiteral = lastLiteral? (.ofDocument doc) names f f.types ∧
      p'.defaultLiteral = lastLiteral? (.ofDocument doc) names' f (order f) ∧
      (∀ types, types.Perm f.types → rankedLiteral? (.ofDocument doc) names f types =
        rankedLiteral? (.ofDocument doc) names f f.types) ∧
      (Agreed (.ofDocument doc) names f f.types ↔ ∀ types, types.Perm f.types →
        lastLiteral? (.ofDocument doc) names f types =
          rankedLiteral? (.ofDocument doc) names f f.types) ∧
      (Agreed (.ofDocument doc) names f f.types →
        (∀ e, Enumerates (.ofDocument doc) f e → names' e = names e) →
        p'.defaultLiteral = p.defaultLiteral) := by
  obtain ⟨p, names, hp, hfiles, hliteral⟩ := h.exists_default hdistinct ht hmade hs hf
  obtain ⟨p', names', hp', hfiles', hliteral'⟩ :=
    h'.exists_default hdistinct.reorder ht' hmade' hs' hf.reorder
  have hperm : (order f).Perm f.types := horder f
  have henums : ∀ e, Enumerates (.ofDocument (doc.reorder order)) (f.reorder order) e ↔
      Enumerates (.ofDocument doc) f e := fun e => by
    rw [Enumerates, Enumerates, enumOf?_reorder]
    exact exists_congr fun t => and_congr_left fun _ => hperm.mem_iff
  have hlast : p'.defaultLiteral = lastLiteral? (.ofDocument doc) names' f (order f) := by
    rw [hliteral', lastLiteral?_reorder]
    rfl
  refine ⟨p, p', names, names', hp, hp', fun e he => ⟨hfiles e he, hfiles' e ((henums e).2 he)⟩,
    hliteral, hlast, fun types hp => (rankedLiteral?_perm hone hp.symm).symm, agreed_iff,
    fun hagreed hnames => ?_⟩
  have hnamed : lastLiteral? (.ofDocument doc) names' f (order f) =
      lastLiteral? (.ofDocument doc) names f (order f) :=
    lastLiteral?_congr fun t ht e he => hnames e ⟨t, hperm.mem_iff.1 ht, he⟩
  rw [hlast, hnamed, hliteral, lastLiteral?_of_agreed hagreed hperm,
    lastLiteral?_of_agreed hagreed (.refl _)]

def stateEnum : EnumDecl where
  className := "App\\Enum\\State"
  backed := true
  cases := [{ name := "Open", value := .str "open" }, { name := "Sealed", value := .str "sealed" }]

def stateField (types : List FieldType) : Field where
  name := "state"
  types := types
  default := .str "open"

def parcelDecl (types : List FieldType) : ClassDecl where
  className := "App\\Entity\\Parcel"
  fields := [stateField types]
  exposures := [{ shortName := "Parcel" }]

def depot (types : List FieldType) : Document where
  classes := [parcelDecl types]
  enums := [stateEnum]

def stateForm : FieldType where
  builtin := "object"
  className := some "App\\Enum\\State"

def momentForm : FieldType where
  builtin := "object"
  className := some "DateTimeInterface"

def textForm : FieldType where
  builtin := "string"

/-- The default of the state of a parcel after a run that succeeds. -/
def parcelState (doc : Document) : Option (Option String) :=
  if (({} : Run).takeSteps (Pipeline.extraction (.ofDocument doc) {})).1.isOk then
    match (extraction (.ofDocument doc) {}).types.lookupSource "App\\Entity\\Parcel" with
    | some t => if t.hasFactory then (t.properties.get? "state").map (·.defaultLiteral) else none
    | none => none
  else none

theorem exists_parcel (doc : Document) (literal : Option String)
    (h : parcelState doc = some literal) :
    ∃ d t p, Extracts (.ofDocument doc) {} d ∧ d.types.ClassType "App\\Entity\\Parcel" t ∧
      t.properties.get? "state" = some p ∧ p.defaultLiteral = literal := by
  unfold parcelState at h
  split at h
  · rename_i hok
    split at h
    · rename_i t hl
      split at h
      · rename_i hmade
        obtain ⟨p, hp, rfl⟩ := Option.map_eq_some_iff.1 h
        exact ⟨_, t, p, extracts_extraction hok, ⟨hl, hmade⟩, hp, rfl⟩
      · cases h
    · cases h
  · cases h

/-- Text and an enum do not give the same default, and the later one is taken. -/
theorem parcel_state_by_order :
    (∃ d t p, Extracts (.ofDocument (depot [textForm, stateForm])) {} d ∧
      d.types.ClassType "App\\Entity\\Parcel" t ∧ t.properties.get? "state" = some p ∧
      p.defaultLiteral = some "State.Open") ∧
    ∃ d t p, Extracts (.ofDocument (depot [stateForm, textForm])) {} d ∧
      d.types.ClassType "App\\Entity\\Parcel" t ∧ t.properties.get? "state" = some p ∧
      p.defaultLiteral = some "\"open\"" :=
  ⟨exists_parcel _ _ (by decide +kernel), exists_parcel _ _ (by decide +kernel)⟩

section Parcel

variable {names : String → String} {types : List FieldType}

theorem parcel_enums : enumOf? (.ofDocument (depot types)) stateForm = some "App\\Enum\\State" ∧
    enumOf? (.ofDocument (depot types)) momentForm = none := ⟨rfl, rfl⟩

theorem stateForm_gives : caseLiteral? (.ofDocument (depot types)) names (stateField types)
    stateForm = some (names "App\\Enum\\State" ++ "." ++ "Open") := by
  have hopen : (defaultCase (.ofDocument (depot types)) "App\\Enum\\State"
      (stateField types)).toOption.join = some "Open" := by
    have hcase : (stateEnum.caseOf? (.str "open")).map (·.name) = some "Open" := by decide +kernel
    exact hcase
  simp [caseLiteral?, parcel_enums, hopen]

theorem momentForm_gives_nothing : literalOf? (.ofDocument (depot types)) names (stateField types)
    momentForm = none := by
  simp only [literalOf?, caseLiteral?, parcel_enums]
  rfl

theorem parcel_agreed : Agreed (.ofDocument (depot types)) names (stateField types)
    [stateForm, momentForm] := by
  intro form hform x hx
  rcases List.mem_pair.1 hform with rfl | rfl
  · rw [literalOf?, stateForm_gives, Option.some_or] at hx
    rw [rankedLiteral?, List.findSome?_cons, stateForm_gives, hx, Option.some_or]
  · rw [momentForm_gives_nothing] at hx
    cases hx

theorem parcel_last (forms : List FieldType) (h : forms.Perm [stateForm, momentForm]) :
    lastLiteral? (.ofDocument (depot types)) names (stateField types) forms =
      some (names "App\\Enum\\State" ++ "." ++ "Open") := by
  rw [lastLiteral?_of_agreed parcel_agreed h, rankedLiteral?, List.findSome?_cons,
    stateForm_gives, Option.some_or]

end Parcel

/-- An open parcel says so in both orders of an enum and a moment. -/
theorem parcel_state_in_order : (depot [stateForm, momentForm]).FieldsDistinct ∧
    (∀ g : Field, g.types.reverse.Perm g.types) ∧
    ∃ d d' t t' p p', Extracts (.ofDocument (depot [stateForm, momentForm])) {} d ∧
      Extracts (.ofDocument (depot [momentForm, stateForm])) {} d' ∧
      d.types.ClassType "App\\Entity\\Parcel" t ∧ d'.types.ClassType "App\\Entity\\Parcel" t' ∧
      t.properties.get? "state" = some p ∧ t'.properties.get? "state" = some p' ∧
      p.defaultLiteral = some "State.Open" ∧ p'.defaultLiteral = p.defaultLiteral := by
  have hdistinct : (depot [stateForm, momentForm]).FieldsDistinct := by
    unfold Document.FieldsDistinct
    decide
  obtain ⟨d, t, p, hd, ht, hp, hliteral⟩ := exists_parcel (depot [stateForm, momentForm])
    (some "State.Open") (by decide +kernel)
  obtain ⟨d', t', p', hd', ht', hp', hliteral'⟩ := exists_parcel (depot [momentForm, stateForm])
    (some "State.Open") (by decide +kernel)
  obtain ⟨seeded, modeled, served, hphased⟩ := hd.phased
  obtain ⟨seeded', modeled', served', hphased'⟩ := hd'.phased
  obtain ⟨-, hget, hs⟩ := hphased.coherent.of_lookupSource ht.1
  obtain ⟨-, hget', hs'⟩ := hphased'.coherent.of_lookupSource ht'.1
  have hreordered : Extracts
      (.ofDocument ((depot [stateForm, momentForm]).reorder fun g => g.types.reverse)) {} d' := hd'
  have hf : (Catalog.ofDocument (depot [stateForm, momentForm])).HasField "App\\Entity\\Parcel"
      (stateField [stateForm, momentForm]) :=
    ⟨parcelDecl [stateForm, momentForm], rfl, List.mem_singleton_self _, rfl⟩
  obtain ⟨q, q', names, again, hq, hq', -, hlast, hlast', -, -, hsame⟩ :=
    default_reordered hdistinct (fun g => g.types.reverse_perm) hd hreordered hget ht.2 hs
      hget' ht'.2 hs' hf (by decide)
  obtain rfl := Option.some.inj (hp.symm.trans hq)
  obtain rfl := Option.some.inj (hp'.symm.trans hq')
  refine ⟨hdistinct, fun g => g.types.reverse_perm, d, d', t, t', p, p', hd, hd', ht, ht', hp, hp',
    hliteral, hsame parcel_agreed ?_⟩
  -- Both runs name the enum after itself, as their defaults tell.
  have hsuffixed : again "App\\Enum\\State" ++ "." ++ "Open" =
      names "App\\Enum\\State" ++ "." ++ "Open" := by
    refine Option.some.inj ?_
    calc some (again "App\\Enum\\State" ++ "." ++ "Open")
      _ = p'.defaultLiteral := (hlast'.trans (parcel_last _ (List.reverse_perm _))).symm
      _ = p.defaultLiteral := hliteral'.trans hliteral.symm
      _ = some (names "App\\Enum\\State" ++ "." ++ "Open") :=
        hlast.trans (parcel_last _ (.refl _))
  rintro e ⟨form, hform, he⟩
  rcases List.mem_pair.1 hform with rfl | rfl
  · obtain rfl := Option.some.inj (parcel_enums.1.symm.trans he)
    simpa using hsuffixed
  · exact absurd (parcel_enums.2.symm.trans he) nofun

end HydraClient
