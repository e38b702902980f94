import HydraClient.ClassName
import HydraClient.Metadata.Document

/-! # The catalog of described classes

A document looked up by class name and filter id. Of two descriptions under one name the later one
is served, in the place of the earlier. Names are asked for without leading backslashes.
-/
namespace HydraClient

open Metadata

inductive ClassKind where
  | model
  | enumeration
  | datetime
  | identifier
  | passthrough
  | unknown
  deriving DecidableEq, Repr

namespace ClassKind

def word : ClassKind → String
  | model => "model"
  | enumeration => "enum"
  | datetime => "datetime"
  | identifier => "identifier"
  | passthrough => "passthrough"
  | unknown => "unknown"

end ClassKind

structure Catalog where
  config : Config := {}
  classes : OrderedMap String ClassDecl := .empty
  enums : OrderedMap String EnumDecl := .empty
  filters : OrderedMap String Filter := .empty
  routes : List Route := []

namespace Catalog

def ofDocument (d : Document) : Catalog where
  config := d.config
  classes := .ofList (d.classes.map fun c => (c.className, c))
  enums := .ofList (d.enums.map fun e => (e.className, e))
  filters := .ofList (d.filters.map fun f => (f.id, f))
  routes := d.routes

def resources (c : Catalog) : List String :=
  (c.classes.entries.filter fun e => e.2.isAddressable).map Prod.fst

theorem nodup_resources (c : Catalog) : c.resources.Nodup :=
  c.classes.distinct.sublist (List.filter_sublist.map _)

def class? (c : Catalog) (name : String) : Option ClassDecl :=
  c.classes.get? (ClassName.relative name)

def enum? (c : Catalog) (name : String) : Option EnumDecl :=
  c.enums.get? (ClassName.relative name)

def listed (names : List String) (name : String) : Bool :=
  (names.map ClassName.relative).contains name

/-- Descriptions come before the configured lists of well-known classes. -/
def classify (c : Catalog) (className : String) : ClassKind :=
  let name := ClassName.relative className
  if c.classes.contains name then .model
  else if c.enums.contains name then .enumeration
  else if listed c.config.datetimeClasses name then .datetime
  else if listed c.config.identifierClasses name then .identifier
  else if listed c.config.passthroughClasses name then .passthrough
  else .unknown

theorem classify_eq_model_iff {c : Catalog} {name : String} :
    c.classify name = .model ↔ ∃ shape, c.class? name = some shape := by
  rw [class?, ← OrderedMap.contains_iff_get?]
  unfold classify
  dsimp only
  constructor
  · intro h
    by_cases hc : c.classes.contains (ClassName.relative name) = true
    · exact hc
    · rw [if_neg hc] at h
      repeat' split at h
      all_goals cases h
  · exact fun hc => if_pos hc

theorem mem_classes_of_class? {d : Document} {name : String} {shape : ClassDecl}
    (h : (ofDocument d).class? name = some shape) :
    shape ∈ d.classes ∧ shape.className = ClassName.relative name := by
  obtain ⟨decl, hdecl, hentry⟩ := List.mem_map.1 (OrderedMap.mem_of_get?_ofList h)
  obtain ⟨hname, rfl⟩ := Prod.mk.inj hentry
  exact ⟨hdecl, hname⟩

/-- The filters that ids refer to; an id without a filter is passed over. -/
def filtersOf (c : Catalog) (ids : List String) : List Filter := ids.filterMap c.filters.get?

end Catalog
end HydraClient
