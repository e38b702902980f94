import HydraClient.BaseTypes
import HydraClient.Proofs.Registration

/-! # Base types in the registry

The words for scalars have no file, and every other base type is declared in one of two shared
files. Base types import from their own file only, and their properties refer to nothing else.
-/
namespace HydraClient

open TypeRegistry

def Seeded (hydra : String) (r : TypeRegistry) : Prop :=
  ∀ t ∈ BaseTypes.all hydra, ∃ u, r.get? t.name = some u ∧ u.head = t.head

namespace BaseTypes

theorem head_foldl {α : Type} {f : TypeEntry → α → TypeEntry} (hf : ∀ t a, (f t a).head = t.head)
    (l : List α) (t : TypeEntry) : (l.foldl f t).head = t.head := by
  induction l generalizing t with
  | nil => rfl
  | cons a rest ih => exact (ih (f t a)).trans (hf t a)

theorem interface_head (name : String) (ps : List Property) (generics : Option String)
    (siblings : List String) : (interface name ps generics siblings).head = {
      name
      kind := .interface
      file := some apiTypesFile
      source := some ("@base/" ++ name)
      generics } := by
  unfold interface
  rw [head_foldl fun t s => t.head_addImport _ s, head_foldl fun t p => t.head_addProperty p]
  rfl

theorem file_interface (name : String) (ps : List Property) (generics : Option String)
    (siblings : List String) : (interface name ps generics siblings).file = some apiTypesFile :=
  (congrArg TypeEntry.file (interface_head name ps generics siblings) :)

end BaseTypes

namespace Seeded

variable {hydra : String} {r r' : TypeRegistry} {i : Imports}

theorem of_keeps (h : Seeded hydra r) (hr : Keeps r r') : Seeded hydra r' := fun t ht => by
  obtain ⟨u, hu, e⟩ := h t ht
  obtain ⟨v, hv, e'⟩ := hr.heads hu
  exact ⟨v, hv, e'.trans e⟩

theorem builtin (h : Seeded hydra r) {n : String} (hn : n ∈ BaseTypes.builtinNames) :
    r.Imported i n := by
  have hall : BaseTypes.builtin n ∈ BaseTypes.all hydra := by
    simp only [BaseTypes.all, List.mem_append]
    exact .inl (.inl (.inl (List.mem_map_of_mem hn)))
  obtain ⟨u, hu, e⟩ := h (BaseTypes.builtin n) hall
  refine ⟨u, hu, fun f hf => ?_⟩
  have : u.file = none := TypeEntry.file_of_head e
  rw [this] at hf
  cases hf

theorem declares {t : TypeEntry} {file : String} (h : Seeded hydra r) (ht : t ∈ BaseTypes.all hydra)
    (hf : t.file = some file) : r.Declares file t.name := by
  obtain ⟨u, hu, e⟩ := h t ht
  exact ⟨u, hu, (TypeEntry.file_of_head e).trans hf⟩

theorem declares_dateTime (h : Seeded hydra r) : r.Declares BaseTypes.apiTypesFile "DateTime" :=
  h.declares (t := BaseTypes.textAlias "DateTime" none) (by simp [BaseTypes.all]) rfl

theorem declares_hydraIri (h : Seeded hydra r) : r.Declares BaseTypes.apiTypesFile "HydraIri" :=
  h.declares (t := BaseTypes.textAlias "HydraIri" (some "T extends HydraItem"))
    (by simp [BaseTypes.all]) rfl

theorem declares_enum (h : Seeded hydra r) {n : String} (hn : n = "BooleanEnum" ∨ n = "Order") :
    r.Declares BaseTypes.enumFile n := by
  rcases hn with rfl | rfl
  · exact h.declares (t := BaseTypes.textEnum "BooleanEnum" [("True", "true"), ("False", "false")])
      (by simp [BaseTypes.all]) rfl
  · exact h.declares (t := BaseTypes.textEnum "Order" [("Asc", "asc"), ("Desc", "desc")])
      (by simp [BaseTypes.all]) rfl

end Seeded

theorem TypeRegistry.Declares.imported {r : TypeRegistry} {file n : String} {i : Imports}
    (h : r.Declares file n) (hi : i.Takes file n) : r.Imported i n := by
  obtain ⟨t, ht, hf⟩ := h
  refine ⟨t, ht, fun f hf' => ?_⟩
  obtain rfl := Option.some.inj (hf.symm.trans hf')
  exact hi

/-- A property that refers to nothing, as the properties of base types and of list parameters do. -/
structure Plain (p : Property) : Prop where
  imports : ∀ {f n}, ¬p.imports.Takes f n
  schema : p.schema.isEmpty = true
  related : p.related = none
  enumName : p.enumName = none

namespace BaseTypes

variable {hydra name : String} {t : TypeEntry} {p : Property} {file n : String}

def sharedNames : List String := ["HydraIri", "HydraItem", "HydraView", "HydraSearchMapping"]

structure Shared (t : TypeEntry) : Prop where
  properties : ∀ p ∈ t.properties.values, Plain p
  imports : ∀ {f n}, t.imports.Takes f n → f = apiTypesFile ∧ n ∈ sharedNames
  filed : t.file = none ∨ t.isRendered = true
  hasFactory : t.hasFactory = false
  persistent : t.persistent = false
  kind : t.kind ≠ .nativeEnum

theorem plain_property (name expression : String) (required readOnly : Bool) :
    Plain (property name expression required readOnly) :=
  ⟨Imports.not_takes_empty _ _, rfl, rfl, rfl⟩

theorem Shared.addProperty (h : Shared t) (hp : Plain p) : Shared (t.addProperty p) where
  properties q hq := by
    rcases OrderedMap.mem_values_insert hq with rfl | hq
    · exact hp
    · exact h.properties q hq
  imports hi := by
    rcases Imports.takes_merge.1 hi with hi | hi
    · exact h.imports hi
    · exact absurd (TypeEntry.takes_of_takes_importsOf hi) hp.imports
  filed := h.filed
  hasFactory := h.hasFactory
  persistent := h.persistent
  kind := h.kind

theorem Shared.addSibling (h : Shared t) (hn : n ∈ sharedNames) :
    Shared (t.addImport (some apiTypesFile) n) where
  properties := h.properties
  imports hi := by
    rcases TypeEntry.takes_addImport.1 hi with ⟨hf, rfl⟩ | hi
    · exact ⟨(Option.some.inj hf).symm, hn⟩
    · exact h.imports hi
  filed := h.filed
  hasFactory := h.hasFactory
  persistent := h.persistent
  kind := h.kind

theorem shared_interface {ps : List Property} {generics : Option String} {siblings : List String}
    (hps : ∀ p ∈ ps, Plain p) (hs : ∀ s ∈ siblings, s ∈ sharedNames) :
    Shared (interface name ps generics siblings) := by
  unfold interface
  refine List.foldlRecOn siblings _ (List.foldlRecOn ps _ ?_ ?_) fun t ht s hmem =>
    ht.addSibling (hs s hmem)
  · exact ⟨by simp [OrderedMap.values, OrderedMap.empty],
      fun h => absurd h (Imports.not_takes_empty _ _), .inr rfl, rfl, rfl, nofun⟩
  · exact fun t ht p hp => ht.addProperty (hps p hp)

theorem shared_bare (hp : t.properties = .empty) (hi : t.imports = .empty)
    (hf : t.file = none ∨ t.isRendered = true) (hfactory : t.hasFactory = false)
    (hpersistent : t.persistent = false) (hk : t.kind ≠ .nativeEnum) : Shared t :=
  ⟨by simp [hp, OrderedMap.values, OrderedMap.empty],
    fun h => absurd (hi ▸ h) (Imports.not_takes_empty _ _), hf, hfactory, hpersistent, hk⟩

theorem shared_envelope (h : t ∈ envelopes hydra) : Shared t := by
  simp only [envelopes, List.mem_cons, List.not_mem_nil, or_false] at h
  rcases h with rfl | rfl | rfl | rfl | rfl | rfl <;>
    exact shared_interface (by simp [plain_property]) (by decide)

theorem names_envelopes : (envelopes hydra).map (·.name) =
    ["HydraItem", "HydraView", "HydraCollection", "HydraSearchMapping", "HydraSearch",
      "ListParams"] := rfl

theorem file_envelope (h : t ∈ envelopes hydra) : t.file = some apiTypesFile := by
  simp only [envelopes, List.mem_cons, List.not_mem_nil, or_false] at h
  rcases h with rfl | rfl | rfl | rfl | rfl | rfl <;>
    exact file_interface _ _ _ _

theorem file_of_mem (h : t ∈ all hydra) :
    t.file = none ∨ t.file = some apiTypesFile ∨ t.file = some enumFile := by
  simp only [all, List.mem_append, List.mem_map, List.mem_cons, List.not_mem_nil, or_false] at h
  rcases h with ((⟨n, -, rfl⟩ | rfl | rfl | rfl) | h) | rfl | rfl
  · exact .inl rfl
  · exact .inr (.inl rfl)
  · exact .inr (.inl rfl)
  · exact .inr (.inl rfl)
  · exact .inr (.inl (file_envelope h))
  · exact .inr (.inr rfl)
  · exact .inr (.inr rfl)

theorem shared_of_mem (h : t ∈ all hydra) : Shared t := by
  simp only [all, List.mem_append, List.mem_map, List.mem_cons, List.not_mem_nil, or_false] at h
  rcases h with ((⟨n, -, rfl⟩ | rfl | rfl | rfl) | h) | rfl | rfl
  · exact shared_bare rfl rfl (.inl rfl) rfl rfl nofun
  · exact shared_bare rfl rfl (.inr rfl) rfl rfl nofun
  · exact shared_bare rfl rfl (.inr rfl) rfl rfl nofun
  · exact shared_bare rfl rfl (.inr rfl) rfl rfl nofun
  · exact shared_envelope h
  · exact shared_bare rfl rfl (.inr rfl) rfl rfl nofun
  · exact shared_bare rfl rfl (.inr rfl) rfl rfl nofun

theorem sources_all : (all hydra).map (·.source) =
    (["@builtin/string", "@builtin/number", "@builtin/boolean", "@builtin/null",
      "@builtin/Array<T>", "@builtin/object", "@builtin/any", "@base/DateTime", "@base/DateOnly",
      "@base/HydraIri", "@base/HydraItem", "@base/HydraView", "@base/HydraCollection",
      "@base/HydraSearchMapping", "@base/HydraSearch", "@base/ListParams", "@base/BooleanEnum",
      "@base/Order"].map some) := rfl

theorem source_of_mem (h : t ∈ all hydra) :
    ∃ s, t.source = some s ∧ '@' ∈ s.toList ∧ '#' ∉ s.toList := by
  have hs : t.source ∈ (all hydra).map (·.source) := List.mem_map_of_mem h
  rw [sources_all] at hs
  obtain ⟨s, hs, e⟩ := List.mem_map.1 hs
  have hall : ∀ s ∈ ["@builtin/string", "@builtin/number", "@builtin/boolean", "@builtin/null",
      "@builtin/Array<T>", "@builtin/object", "@builtin/any", "@base/DateTime", "@base/DateOnly",
      "@base/HydraIri", "@base/HydraItem", "@base/HydraView", "@base/HydraCollection",
      "@base/HydraSearchMapping", "@base/HydraSearch", "@base/ListParams", "@base/BooleanEnum",
      "@base/Order"], '@' ∈ s.toList ∧ '#' ∉ s.toList := by decide
  exact ⟨s, e.symm, hall s hs⟩

end BaseTypes

namespace Seeded

variable {hydra : String} {r : TypeRegistry} {n : String}

theorem envelope (h : Seeded hydra r) (hn : n ∈ (BaseTypes.envelopes hydra).map (·.name)) :
    ∃ u, r.get? n = some u ∧ u.file = some BaseTypes.apiTypesFile ∧ u.kind ≠ .nativeEnum := by
  obtain ⟨t, ht, rfl⟩ := List.mem_map.1 hn
  have hall : t ∈ BaseTypes.all hydra := by
    simp only [BaseTypes.all, List.mem_append]
    exact .inl (.inr ht)
  obtain ⟨u, hu, e⟩ := h t hall
  refine ⟨u, hu, (TypeEntry.file_of_head e).trans (BaseTypes.file_envelope ht), ?_⟩
  rw [TypeEntry.kind_of_head e]
  exact (BaseTypes.shared_of_mem hall).kind

theorem declares_envelope (h : Seeded hydra r)
    (hn : n ∈ (BaseTypes.envelopes hydra).map (·.name)) : r.Declares BaseTypes.apiTypesFile n := by
  obtain ⟨u, hu, hf, -⟩ := h.envelope hn
  exact ⟨u, hu, hf⟩

theorem declares_shared (h : Seeded hydra r) (hn : n ∈ BaseTypes.sharedNames) :
    r.Declares BaseTypes.apiTypesFile n := by
  by_cases hiri : n = "HydraIri"
  · exact hiri ▸ h.declares_hydraIri
  · refine h.declares_envelope ?_
    rw [BaseTypes.names_envelopes]
    revert hn
    simp only [BaseTypes.sharedNames, List.mem_cons, List.not_mem_nil, or_false]
    grind

end Seeded
end HydraClient
