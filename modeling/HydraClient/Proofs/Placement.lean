import HydraClient.Proofs.ListImports
import HydraClient.Proofs.Seeding

/-! # Placed imports

Only the builtin types stand in no file. A name is recorded without a file when one of them is taken
for a class, and then a document describes a class or an enum under the source of that type, or an
operation deals with one. In all other documents every name is recorded under a file.
-/
namespace HydraClient

open Metadata TypeRegistry Model Operations

namespace Imports

variable {i j : Imports} {file : Option String} {n : String}

def Placed (i : Imports) : Prop := ∀ n, n ∉ i.unplaced.toList

theorem placed_empty : empty.Placed := by
  simp [Placed, empty]

theorem placed_add {file : String} (h : i.Placed) : (i.add file n).Placed := h

theorem Placed.addFrom (h : i.Placed) (hfile : file ≠ none) : (i.addFrom file n).Placed := by
  intro m hm
  rcases mem_unplaced_addFrom.1 hm with ⟨hnone, -⟩ | hm
  · exact hfile hnone
  · exact h m hm

theorem Placed.merge (h : i.Placed) (h' : j.Placed) : (i.merge j).Placed := by
  intro m hm
  exact (mem_unplaced_merge.1 hm).elim (h m) (h' m)

theorem placed_foldl {α : Type} {f : Imports → α → Imports} {l : List α}
    (hf : ∀ a ∈ l, ∀ i : Imports, i.Placed → (f i a).Placed) (h : i.Placed) :
    (l.foldl f i).Placed := by
  induction l generalizing i with
  | nil => exact h
  | cons a rest ih => exact ih (fun b hb => hf b (by simp [hb])) (hf a (by simp) i h)

theorem Placed.unplaced? (h : i.Placed) : i.unplaced? = none := by
  cases hplace : i.unplaced? with
  | none => rfl
  | some place =>
    obtain ⟨n, hn⟩ := exists_of_unplaced? hplace
    exact absurd hn (h n)

end Imports

theorem TypeEntry.placed_importsOf {p : Property} (h : p.imports.Placed) :
    (importsOf p).Placed := by
  have hnone : ∀ n, ¬p.imports.unplaced.contains n = true := fun n hn =>
    h n (NameSet.contains_iff.1 hn)
  intro n hn
  unfold importsOf at hn
  split at hn
  · split at hn
    · rename_i e _
      rw [if_neg (hnone e), Imports.mem_unplaced_addUnplaced] at hn
      refine hn.elim (fun hn => ?_) (NameSet.not_mem_empty n)
      refine Imports.placed_foldl (fun g _ i hi => ?_) ?_ n hn
      · split
        · exact Imports.placed_add hi
        · exact hi
      · split <;> simp [Imports.Placed, Imports.empty]
    · exact Imports.placed_empty n hn
  · rw [Imports.mem_unplaced_addUnplaced] at hn
    refine hn.elim (fun hn => ?_) (h n)
    refine Imports.placed_foldl (fun g _ i hi => ?_) (fun m hm => ?_) n hn
    · split <;> exact hi
    · unfold Imports.opening at hm
      split at hm
      · exact (Imports.mem_unplaced_addUnplaced.1 hm).elim (Imports.placed_empty m) (h m)
      · exact Imports.placed_empty m hm

/-- A source that a document gives to a class or an enum, or that an operation of a described class
deals with. -/
def Catalog.Claims (cat : Catalog) (source : String) : Prop :=
  cat.classify source = .model ∨ cat.classify source = .enumeration ∨
    ∃ shape ∈ cat.classes.values, ∃ e ∈ shape.exposures, ∃ o ∈ e.operations,
      o.input.map ClassName.relative = some source ∨ o.output.map ClassName.relative = some source

def Catalog.ClaimsBuiltin (cat : Catalog) : Prop :=
  ∃ n ∈ BaseTypes.builtinNames, cat.Claims ("@builtin/" ++ n)

instance (cat : Catalog) : Decidable cat.ClaimsBuiltin := by
  unfold Catalog.ClaimsBuiltin Catalog.Claims
  infer_instance

/-- The imports of a type are placed, and so is the type itself unless it is builtin. -/
structure TypeEntry.Placed (t : TypeEntry) : Prop where
  imports : t.imports.Placed
  builtin : t.file = none → ∃ n ∈ BaseTypes.builtinNames, t.source = some ("@builtin/" ++ n)

variable {cat : Catalog} {r r' : TypeRegistry}

namespace TypeEntry.Placed

variable {t : TypeEntry} {file : Option String} {n : String}

theorem of_file {f : String} (hfile : t.file = some f) (h : t.imports.Placed) : t.Placed :=
  ⟨h, fun hnone => absurd (hfile.symm.trans hnone) nofun⟩

theorem addImport (h : t.Placed) (hfile : file ≠ none) : (t.addImport file n).Placed :=
  ⟨h.imports.addFrom hfile, h.builtin⟩

theorem addProperty {p : Property} (h : t.Placed) (hp : p.imports.Placed) :
    (t.addProperty p).Placed :=
  ⟨h.imports.merge (placed_importsOf hp), h.builtin⟩

theorem of_mem_all {hydra : String} (h : t ∈ BaseTypes.all hydra) : t.Placed := by
  have himports : ∀ names ∈ (BaseTypes.all hydra).map (·.imports.unplaced.toList), names = [] := by
    have hall : (BaseTypes.all hydra).map (·.imports.unplaced.toList) = List.replicate 18 [] := rfl
    simp [hall]
  have hsources : ((BaseTypes.all hydra).filter (·.file.isNone)).map (·.source) =
      BaseTypes.builtinNames.map fun n => some ("@builtin/" ++ n) := rfl
  refine ⟨fun n hn => ?_, fun hfile => ?_⟩
  · rw [himports _ (List.mem_map_of_mem h)] at hn
    cases hn
  · have hsource : t.source ∈ ((BaseTypes.all hydra).filter (·.file.isNone)).map (·.source) :=
      List.mem_map_of_mem (List.mem_filter.2 ⟨h, by simp [hfile]⟩)
    rw [hsources] at hsource
    obtain ⟨n, hn, hsource⟩ := List.mem_map.1 hsource
    exact ⟨n, hn, hsource.symm⟩

end TypeEntry.Placed

def TypeRegistry.Placed (r : TypeRegistry) : Prop := ∀ n t, r.get? n = some t → t.Placed

/-- Where no builtin type can be taken for a class, a source that is claimed leads to a file. -/
theorem TypeRegistry.Placed.file_ne_none {s : String} {t : TypeEntry} (h : r.Placed)
    (hr : Coherent r) (hfree : ¬cat.ClaimsBuiltin) (hc : cat.Claims s)
    (hl : r.lookupSource s = some t) : t.file ≠ none := by
  intro hfile
  obtain ⟨-, ht, hs⟩ := hr.of_lookupSource hl
  obtain ⟨n, hn, hsource⟩ := (h _ t ht).builtin hfile
  obtain rfl := Option.some.inj (hs.symm.trans hsource)
  exact hfree ⟨n, hn, hc⟩

namespace Model

variable {source : Option String} {field : Field} {p q : Property} {c : String} {ref : Referent}

def Referent.Filed : Referent → Prop
  | .model t => t.file ≠ none
  | .enumeration t => t.file ≠ none
  | _ => True

theorem Refers.filed (h : Refers cat r c ref) (hr : r.Placed) (hs : Coherent r)
    (hfree : ¬cat.ClaimsBuiltin) : ref.Filed := by
  cases h with
  | model hc hl => exact hr.file_ne_none hs hfree (.inl hc) hl
  | enumeration hc hl => exact hr.file_ne_none hs hfree (.inr (.inl hc)) hl
  | _ => trivial

theorem placed_withNull {t : FieldType} (h : p.imports.Placed) :
    (withNull t p).imports.Placed := by
  unfold withNull
  split <;> exact h

theorem placed_importApiType {n : String} (h : p.imports.Placed) :
    (importApiType p n).imports.Placed := h

theorem placed_tie (source : Option String) (c : String) (href : ref.Filed)
    (h : p.imports.Placed) : (tie source c p ref).imports.Placed := by
  cases ref with
  | model t =>
    have himported : (if some c = source then { p with related := some t.name }
        else importType { p with related := some t.name } t).imports.Placed := by
      split
      · exact h
      · exact h.addFrom href
    change (relate source c p t).imports.Placed
    unfold relate
    dsimp only
    split
    · exact placed_importApiType himported
    · exact himported
  | enumeration t => exact h.addFrom href
  | datetime => exact placed_importApiType h
  | identifier => exact h
  | passthrough => exact h

theorem placed_elementOf (source : Option String) (c : String) (href : ref.Filed)
    (h : p.imports.Placed) : (elementOf source c p ref).2.imports.Placed := by
  have htie := placed_tie source c href h
  unfold elementOf
  split <;> exact htie

theorem Element.placed {value : FieldType} {e : String} (h : Element cat r source value p e q)
    (hr : r.Placed) (hs : Coherent r) (hfree : ¬cat.ClaimsBuiltin) (hp : p.imports.Placed) :
    q.imports.Placed := by
  cases h with
  | scalar => exact hp
  | mixed => exact hp
  | @related c _ _ _ _ href he =>
    have helement := placed_elementOf source (ClassName.relative c)
      (href.filed hr hs hfree) hp
    rw [he] at helement
    exact helement

theorem Formed.placed {t : FieldType} (h : Formed cat r source field t p q) (hr : r.Placed)
    (hs : Coherent r) (hfree : ¬cat.ClaimsBuiltin) (hp : p.imports.Placed) : q.imports.Placed := by
  have hnull : (withNull t p).imports.Placed := placed_withNull hp
  cases h with
  | scalar => exact hnull
  | @collection _ _ q _ he =>
    have hq : q.imports.Placed := he.placed hr hs hfree hnull
    exact hq
  | array => exact hnull
  | object => exact hnull
  | @referring c ref _ href =>
    have hq := placed_tie source (ClassName.relative c) (href.filed hr hs hfree) hnull
    exact hq
  | @defaulting c _ e _ href =>
    have hq := placed_tie source (ClassName.relative c) (href.filed hr hs hfree) hnull
    exact hq

end Model

namespace TypeRegistry.Placed

variable {t : TypeEntry} {n : String} {f : TypeEntry → TypeEntry}

theorem put (h : r.Placed) (ht : t.Placed) : (r.put t).Placed :=
  fun _ _ => (ChangesAt.put r t).forall_entries (fun hu => h _ _ hu) ht

theorem modify (h : r.Placed) (hf : ∀ t, t.Placed → (f t).Placed) : (r.modify n f).Placed := by
  intro m u hu
  rw [get?_modify] at hu
  split at hu
  · obtain ⟨t, ht, rfl⟩ := Option.map_eq_some_iff.1 hu
    exact hf t (h _ t ht)
  · exact h m u hu

theorem grow (h : r.Placed) (hs : Coherent r) (hfree : ¬cat.ClaimsBuiltin)
    (hg : Growth cat r r') : r'.Placed := by
  cases hg with
  | opened => exact h.put (.of_file rfl Imports.placed_empty)
  | enumerated => exact h.put (.of_file rfl Imports.placed_empty)
  | extended _ hparent =>
    obtain ⟨c, hc, hl⟩ := lookupSource_of_parentOf hparent
    exact h.modify fun t ht => .addImport ⟨ht.imports, ht.builtin⟩
      (h.file_ne_none hs hfree (.inl hc) hl)
  | addressed => exact h.modify fun t ht => .addImport ⟨ht.imports, ht.builtin⟩ nofun
  | filled _ _ _ hbuilt =>
    have hp := Passes.invariant (I := fun p : Property => p.imports.Placed) hbuilt
      Imports.placed_empty fun _ _ _ _ hp hf => Formed.placed hf h hs hfree hp
    exact h.modify fun t ht => ht.addProperty hp
  | @listed entry shape resource e o d _ hc _ _ hl _ _ hd _ =>
    have hfile := h.file_ne_none hs hfree (.inl (Catalog.classify_eq_model_iff.2 ⟨_, hc⟩)) hl
    have hbase : (listBase cat.config entry resource e o).imports.Placed := by
      have hgeneric : ((Imports.empty.add BaseTypes.apiTypesFile "ListParams").addFrom
          resource.file resource.name).Placed :=
        (Imports.placed_add Imports.placed_empty).addFrom hfile
      unfold listBase
      split
      · exact Imports.placed_add hgeneric
      · exact hgeneric
    have himports : d.imports.Placed :=
      keeps_deriveFields (fun hi => Imports.placed_add hi) hbase hd
    have hhead := listType_head cat.config entry resource e o d
    exact h.put (.of_file (congrArg TypeEntry.file hhead) himports)

theorem grows (h : r.Placed) (hs : Coherent r) (hfree : ¬cat.ClaimsBuiltin)
    (hg : Grows cat r r') : r'.Placed := by
  induction hg with
  | refl => exact h
  | tail hmid step ih => exact ih.grow (Grows.coherent hmid hs) hfree step

theorem of_exactly {hydra : String} (h : BaseTypes.Exactly (BaseTypes.all hydra) r) : r.Placed :=
  fun _ _ ht => .of_mem_all (h.among ht)

end TypeRegistry.Placed
end HydraClient
