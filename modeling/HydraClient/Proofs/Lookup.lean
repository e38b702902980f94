import HydraClient.Proofs.Spellings

/-! # Descriptions as they are served

A checked document describes no class twice, so what is served under a name is the one description
that was given for it. Names are looked up without leading backslashes but kept as they are written:
a description is served, under every spelling of its name, exactly if it is declared without them.
Filters are not checked for repeated ids, of which the last declaration is served.
-/
namespace HydraClient

open Metadata

namespace OrderedMap

variable {α β : Type} [DecidableEq α]

private theorem entries_foldl_insert {l : List (α × β)} {m : OrderedMap α β}
    (h : (m.keys ++ l.map Prod.fst).Nodup) :
    (l.foldl (fun m e => m.insert e.1 e.2) m).entries = m.entries ++ l := by
  induction l generalizing m with
  | nil => simp
  | cons e rest ih =>
    have hfresh : e.1 ∉ m.keys := fun hmem => by
      rw [List.nodup_append] at h
      exact h.2.2 e.1 hmem e.1 (by simp) rfl
    have hkeys : (m.insert e.1 e.2).keys = m.keys ++ [e.1] := by
      rw [keys_insert, if_neg hfresh]
    rw [List.foldl_cons, ih (by simpa [hkeys] using h), insert, dif_neg hfresh]
    simp [push]

theorem entries_ofList {l : List (α × β)} (h : (l.map Prod.fst).Nodup) : (ofList l).entries = l :=
  entries_foldl_insert (m := empty) (by simpa [keys, empty] using h)

end OrderedMap

namespace Catalog

theorem classify_eq_enumeration_iff {cat : Catalog} {name : String} :
    cat.classify name = .enumeration ↔
      cat.class? name = none ∧ ∃ shape, cat.enum? name = some shape := by
  rw [class?, enum?, OrderedMap.get?_eq_none_iff, ← OrderedMap.contains_iff,
    ← OrderedMap.contains_iff_get?]
  unfold classify
  dsimp only
  constructor
  · intro h
    by_cases hc : cat.classes.contains (ClassName.relative name) = true
    · rw [if_pos hc] at h
      cases h
    · by_cases he : cat.enums.contains (ClassName.relative name) = true
      · exact ⟨hc, he⟩
      · rw [if_neg hc, if_neg he] at h
        repeat' split at h
        all_goals cases h
  · rintro ⟨hc, he⟩
    rw [if_neg hc, if_pos he]

end Catalog

section Named

variable {α : Type} {l : List α} {key : α → String} {a : α} {name : String}

/-- Of things that are named differently, one is found under any spelling of its name if it is
itself declared under the plain one. -/
theorem get?_relative (hl : (l.map fun a => ClassName.relative (key a)).Nodup) (ha : a ∈ l)
    (hname : ClassName.relative name = ClassName.relative (key a)) :
    (OrderedMap.ofList (l.map fun a => (key a, a))).get? (ClassName.relative name) =
      if ClassName.relative (key a) = key a then some a else none := by
  have hkeys : ((l.map fun a => (key a, a)).map Prod.fst).Nodup := by
    rw [List.map_map]
    exact List.Nodup.of_map ClassName.relative (by simpa [Function.comp_def] using hl)
  split
  · rename_i hplain
    rw [OrderedMap.get?_ofList_of_nodup hkeys]
    exact List.mem_map.2 ⟨a, ha, by rw [hname, hplain]⟩
  · rename_i hplain
    -- Whatever is kept under the plain name would be named like `a`, and so be `a` itself.
    rw [Option.eq_none_iff_forall_ne_some]
    intro b hb
    obtain ⟨c, hc, hpair⟩ := List.mem_map.1 ((OrderedMap.get?_ofList_of_nodup hkeys).1 hb)
    obtain ⟨hkey, rfl⟩ := Prod.mk.inj hpair
    have hsame : c = a := List.inj_on_of_nodup_map hl hc ha (by
      rw [hkey, hname, Model.relative_relative])
    subst hsame
    exact hplain (by rw [← hname, hkey])

theorem get?_relative_eq_none (h : ∀ a ∈ l, ClassName.relative name ≠ ClassName.relative (key a)) :
    (OrderedMap.ofList (l.map fun a => (key a, a))).get? (ClassName.relative name) = none := by
  rw [Option.eq_none_iff_forall_ne_some]
  intro b hb
  obtain ⟨a, ha, hpair⟩ := List.mem_map.1 (OrderedMap.mem_of_get?_ofList hb)
  obtain ⟨hkey, rfl⟩ := Prod.mk.inj hpair
  exact h a ha (by rw [hkey, Model.relative_relative])

end Named

structure Metadata.Document.Distinct (doc : Document) : Prop where
  classes : (doc.classes.map fun c => ClassName.relative c.className).Nodup
  enums : (doc.enums.map fun e => ClassName.relative e.className).Nodup
  apart : ∀ c ∈ doc.classes, ∀ e ∈ doc.enums,
    ClassName.relative c.className ≠ ClassName.relative e.className

theorem Check.distinct {doc : Document} (h : doc.verdict.hasErrors = false) : doc.Distinct := by
  have hnodup := nodup_classNames h
  rw [List.map_append, List.map_map, List.map_map, List.nodup_append] at hnodup
  obtain ⟨hclasses, henums, hapart⟩ := hnodup
  exact ⟨hclasses, henums, fun c hc e he =>
    hapart _ (List.mem_map_of_mem hc) _ (List.mem_map_of_mem he)⟩

namespace Catalog

variable {doc : Document} {c : ClassDecl} {e : EnumDecl} {name : String}

theorem class?_of_described (h : doc.Distinct) (hc : c ∈ doc.classes)
    (hname : ClassName.relative name = ClassName.relative c.className) :
    (ofDocument doc).class? name =
      if ClassName.relative c.className = c.className then some c else none :=
  get?_relative h.classes hc hname

theorem enum?_of_described (h : doc.Distinct) (he : e ∈ doc.enums)
    (hname : ClassName.relative name = ClassName.relative e.className) :
    (ofDocument doc).enum? name =
      if ClassName.relative e.className = e.className then some e else none :=
  get?_relative h.enums he hname

theorem class?_of_enum (h : doc.Distinct) (he : e ∈ doc.enums)
    (hname : ClassName.relative name = ClassName.relative e.className) :
    (ofDocument doc).class? name = none :=
  get?_relative_eq_none fun c hc hsame => h.apart c hc e he (hsame.symm.trans hname)

theorem classify_of_described (h : doc.Distinct) (hc : c ∈ doc.classes)
    (hname : ClassName.relative name = ClassName.relative c.className) :
    (ofDocument doc).classify name = .model ↔ ClassName.relative c.className = c.className := by
  rw [classify_eq_model_iff, class?_of_described h hc hname]
  split <;> simp_all

theorem classify_of_enum (h : doc.Distinct) (he : e ∈ doc.enums)
    (hname : ClassName.relative name = ClassName.relative e.className) :
    (ofDocument doc).classify name = .enumeration ↔
      ClassName.relative e.className = e.className := by
  rw [classify_eq_enumeration_iff, class?_of_enum h he hname, enum?_of_described h he hname]
  split <;> simp_all

theorem entries_ofDocument (h : doc.Distinct) :
    (ofDocument doc).classes.entries = doc.classes.map fun c => (c.className, c) := by
  refine OrderedMap.entries_ofList ?_
  rw [List.map_map]
  exact List.Nodup.of_map ClassName.relative (by simpa [Function.comp_def] using h.classes)

theorem size_ofDocument (h : doc.Distinct) :
    (ofDocument doc).classes.size = doc.classes.length := by
  rw [OrderedMap.size, entries_ofDocument h, List.length_map]

theorem resources_of_distinct (h : doc.Distinct) :
    (ofDocument doc).resources = (doc.classes.filter (·.isAddressable)).map (·.className) := by
  rw [resources, entries_ofDocument h, List.filter_map, List.map_map]
  rfl

end Catalog

namespace Metadata.Document

/-- The declaration that stands under an id, of several ones the last. -/
def filter? (doc : Document) (id : String) : Option Filter :=
  doc.filters.reverse.find? (·.id == id)

def Declares (doc : Document) (o : Operation) : Prop :=
  ∃ c ∈ doc.classes, ∃ e ∈ c.exposures, o ∈ e.operations

variable {doc : Document} {f : Filter} {id : String}

theorem id_of_filter? (h : doc.filter? id = some f) : f.id = id := by
  simpa using List.find?_some h

theorem exists_filter? (h : id ∈ doc.filters.map (·.id)) : ∃ f, doc.filter? id = some f := by
  obtain ⟨f, hf, rfl⟩ := List.mem_map.1 h
  rw [← Option.isSome_iff_exists, filter?, List.find?_isSome]
  exact ⟨f, List.mem_reverse.2 hf, beq_self_eq_true f.id⟩

end Metadata.Document

namespace Check

variable {doc : Document} {c : ClassDecl} {e : Exposure} {o : Operation} {id : String}

theorem isError_of_operation (h : doc.verdict.hasErrors = false) (hc : c ∈ doc.classes)
    (he : e ∈ c.exposures) (ho : o ∈ e.operations) :
    ∀ f ∈ operation (doc.filters.map (·.id)) c.className o, f.isError = false := by
  intro f hf
  have hmem : f ∈ (operations doc).findings :=
    List.mem_flatMap.2 ⟨c, hc, List.mem_flatMap.2 ⟨e, he,
      List.mem_append_right _ (List.mem_flatMap.2 ⟨o, ho, hf⟩)⟩⟩
  rw [Verdict.hasErrors, List.any_eq_false] at h
  simpa using h f (by simp [Document.verdict, Verdict.merge, hmem])

theorem declared_of_mem (h : doc.verdict.hasErrors = false) (ho : doc.Declares o)
    (hid : id ∈ o.filters) : id ∈ doc.filters.map (·.id) := by
  obtain ⟨c, hc, e, he, ho⟩ := ho
  by_contra hunknown
  have hfinding := isError_of_operation h hc he ho _ (List.mem_append_left _
    (List.mem_map.2 ⟨id, List.mem_filter.2 ⟨hid, by simpa using hunknown⟩, rfl⟩))
  cases hfinding

end Check

namespace Catalog

variable {doc : Document} {f : Filter} {id : String} {ids : List String}

theorem get?_filters : (ofDocument doc).filters.get? id = doc.filter? id := by
  rw [ofDocument, OrderedMap.get?_ofList, ← List.map_reverse, List.find?_map, Option.map_map]
  exact Option.map_id'

/-- A declaration is served exactly to those who ask for its id, unless a later one has it too. -/
theorem mem_filtersOf_iff :
    f ∈ (ofDocument doc).filtersOf ids ↔ f.id ∈ ids ∧ doc.filter? f.id = some f := by
  rw [filtersOf, List.mem_filterMap]
  constructor
  · rintro ⟨id, hid, hf⟩
    rw [get?_filters] at hf
    obtain rfl := Document.id_of_filter? hf
    exact ⟨hid, hf⟩
  · rintro ⟨hid, hf⟩
    exact ⟨f.id, hid, get?_filters.trans hf⟩

theorem ids_filtersOf (h : ∀ id ∈ ids, id ∈ doc.filters.map (·.id)) :
    ((ofDocument doc).filtersOf ids).map (·.id) = ids := by
  induction ids with
  | nil => rfl
  | cons id rest ih =>
    obtain ⟨f, hf⟩ := Document.exists_filter? (h id List.mem_cons_self)
    rw [filtersOf, List.filterMap_cons_some (get?_filters.trans hf), List.map_cons,
      Document.id_of_filter? hf]
    exact congrArg _ (ih fun id hid => h id (List.mem_cons_of_mem _ hid))

/-- A checked document is served class by class and enum by enum under every spelling of their
names, where these are declared without leading backslashes; otherwise no spelling finds them. The
classes with exposures are listed as they are declared, and every id that an operation refers to
brings the last declaration that has it. -/
theorem serves_described {doc : Document} (h : doc.verdict.hasErrors = false) :
    (∀ c ∈ doc.classes, ∀ name, ClassName.relative name = ClassName.relative c.className →
      ((ofDocument doc).classify name = .model ↔
        ClassName.relative c.className = c.className) ∧
      (ofDocument doc).class? name =
        if ClassName.relative c.className = c.className then some c else none) ∧
    (∀ e ∈ doc.enums, ∀ name, ClassName.relative name = ClassName.relative e.className →
      ((ofDocument doc).classify name = .enumeration ↔
        ClassName.relative e.className = e.className) ∧
      (ofDocument doc).enum? name =
        if ClassName.relative e.className = e.className then some e else none) ∧
    (ofDocument doc).resources = (doc.classes.filter (·.isAddressable)).map (·.className) ∧
    (ofDocument doc).resources.Nodup ∧
    (∀ o, doc.Declares o → ((ofDocument doc).filtersOf o.filters).map (·.id) = o.filters) ∧
    ∀ f ∈ doc.filters, ∀ o : Operation, f.id ∈ o.filters →
      (f ∈ (ofDocument doc).filtersOf o.filters ↔ doc.filter? f.id = some f) := by
  have hdistinct := Check.distinct h
  refine ⟨fun c hc name hname => ⟨?_, ?_⟩, fun e he name hname => ⟨?_, ?_⟩,
    resources_of_distinct hdistinct, nodup_resources _, fun o ho => ?_, fun f _ o hid => ?_⟩
  · exact classify_of_described hdistinct hc hname
  · exact class?_of_described hdistinct hc hname
  · exact classify_of_enum hdistinct he hname
  · exact enum?_of_described hdistinct he hname
  · exact ids_filtersOf fun id hid => Check.declared_of_mem h ho hid
  · rw [mem_filtersOf_iff, and_iff_right hid]

def shelf (book tone : String) (filters : List Filter) : Document where
  classes := [{
    className := book
    exposures := [{
      shortName := "Book"
      operations := [{ type := some "GetCollection", filters := ["app.filter"] }] }] }]
  enums := [{ className := tone, cases := [{ name := "Calm" }, { name := "Loud" }] }]
  filters := filters

def orderFilter : Filter where
  id := "app.filter"
  kind := .order

def searchFilter : Filter where
  id := "app.filter"
  kind := .search

theorem plain_shelf_is_served :
    ∃ c ∈ (shelf "App\\Entity\\Book" "App\\Enum\\Tone" [orderFilter]).classes,
      (shelf "App\\Entity\\Book" "App\\Enum\\Tone" [orderFilter]).verdict.hasErrors = false ∧
      ClassName.relative "\\\\App\\Entity\\Book" = ClassName.relative c.className ∧
      (ofDocument (shelf "App\\Entity\\Book" "App\\Enum\\Tone" [orderFilter])).class?
        "\\\\App\\Entity\\Book" = some c ∧
      orderFilter ∈ filtersOf
        (.ofDocument (shelf "App\\Entity\\Book" "App\\Enum\\Tone" [orderFilter]))
        ["app.filter"] := by
  have hchecked : (shelf "App\\Entity\\Book" "App\\Enum\\Tone" [orderFilter]).verdict.hasErrors =
      false := by decide +kernel
  have hname : ClassName.relative "\\\\App\\Entity\\Book" =
      ClassName.relative "App\\Entity\\Book" := by decide +kernel
  have hplain : ClassName.relative "App\\Entity\\Book" = "App\\Entity\\Book" := by decide +kernel
  obtain ⟨hclasses, -, -, -, -, hfilters⟩ := serves_described hchecked
  refine ⟨_, List.mem_cons_self, hchecked, hname, ?_, ?_⟩
  · rw [(hclasses _ List.mem_cons_self _ hname).2, if_pos hplain]
  · exact (hfilters orderFilter List.mem_cons_self { filters := ["app.filter"] }
      List.mem_cons_self).2 rfl

/-- A book that is declared with a leading backslash is not found under any spelling, though it is
listed, and of two filters under one id the first is not served. -/
theorem absolute_shelf_is_not_served :
    (shelf "\\App\\Entity\\Book" "\\App\\Enum\\Tone"
      [orderFilter, searchFilter]).verdict.hasErrors = false ∧
    let cat := ofDocument (shelf "\\App\\Entity\\Book" "\\App\\Enum\\Tone"
      [orderFilter, searchFilter])
    cat.resources = ["\\App\\Entity\\Book"] ∧
    (∀ name ∈ ["App\\Entity\\Book", "\\App\\Entity\\Book"],
      cat.classify name = .unknown ∧ (cat.class? name).isNone) ∧
    (∀ name ∈ ["App\\Enum\\Tone", "\\App\\Enum\\Tone"],
      cat.classify name = .unknown ∧ (cat.enum? name).isNone) ∧
    (cat.filtersOf ["app.filter"]).map (·.kind) = [.search] := by
  decide +kernel

end Catalog
end HydraClient
