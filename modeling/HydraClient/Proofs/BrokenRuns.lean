import HydraClient.Proofs.Confinement
import HydraClient.Proofs.Faults

/-! # Runs that break off

What is composed of an extracted catalog fails over values alone: those of enum cases and those of
the defaults of routes. A synchronisation breaks off at a name that no disk could hold, and such a
name has a NUL from the output directory or from the name of a class.
-/
namespace HydraClient

open Metadata TypeRegistry

namespace Json

theorem exists_of_unwritableMember {members : List (String × Json)} {reason : Unwritable}
    (h : unwritableMember? members = some reason) :
    ∃ m ∈ members, m.2.unwritable? = some reason := by
  induction members with
  | nil => cases h
  | cons m rest ih =>
    obtain ⟨k, v⟩ := m
    cases hv : v.unwritable? with
    | some u =>
      rw [unwritableMember?, hv] at h
      exact ⟨(k, v), by simp, hv.trans h⟩
    | none =>
      rw [unwritableMember?, hv] at h
      obtain ⟨m, hm, hreason⟩ := ih h
      exact ⟨m, List.mem_cons_of_mem _ hm, hreason⟩

theorem mem_put {members : List (String × Json)} {name : String} {v : Json} {m : String × Json}
    (h : m ∈ put members name v) : m = (name, v) ∨ m ∈ members := by
  unfold put at h
  split at h
  · obtain ⟨m', hm', rfl⟩ := List.mem_map.1 h
    split
    · exact .inl rfl
    · exact .inr hm'
  · simpa [or_comm] using h

end Json

namespace Catalog

variable {cat : Catalog} {disk : Disk} {e : Failure}

theorem covers_of_writable {v : Json} (h : v.unwritable? = none) : cat.Covers v := by
  intro reason hreason
  rw [h] at hreason
  cases hreason

end Catalog

namespace Routes

variable {cat : Catalog} {disk : Disk} {r : Route} {e : Failure}

def Covered (cat : Catalog) (f : Family) : Prop :=
  ∀ s ∈ f.values, (∃ v, Json.member? "path" s = some v) ∧ ∀ m ∈ s, cat.Covers m.2

namespace Composition

variable {c : Composition}

end Composition

open HydraClient.Routes.Composition

end Routes

variable {cat : Catalog} {disk : Disk} {e : Failure}

def TypeEntry.Covered (cat : Catalog) (t : TypeEntry) : Prop :=
  ∀ v ∈ t.members.values, cat.Covers v

theorem TypeEntry.covered_of_no_members {t : TypeEntry} (h : t.members = .empty) :
    t.Covered cat := by
  intro v hv
  rw [h] at hv
  cases hv

theorem BaseTypes.covered_of_mem {hydra : String} {t : TypeEntry} (h : t ∈ all hydra) :
    t.Covered cat := by
  have hmembers : ∀ m ∈ (all hydra).map (·.members.values),
      ∀ v ∈ m, v.unwritable? = none := by
    have htext : (all hydra).map (·.members.values) = List.replicate 16 [] ++
        [[.str "true", .str "false"], [.str "asc", .str "desc"]] := rfl
    rw [htext]
    simp [Json.unwritable?]
  exact fun v hv => Catalog.covers_of_writable (hmembers _ (List.mem_map_of_mem h) v hv)

theorem Model.covered_nativeEnum {name c file : String} {shape : EnumDecl}
    (h : cat.enum? c = some shape) : (nativeEnum name c file shape).Covered cat := by
  intro v hv
  obtain ⟨k, hk⟩ := OrderedMap.mem_values_iff.1 hv
  obtain ⟨case, hcase, hentry⟩ := List.mem_map.1 (OrderedMap.mem_of_get?_ofList hk)
  obtain ⟨-, rfl⟩ := Prod.mk.inj hentry
  split
  · rename_i hbacked
    exact (Catalog.Writes.case h hbacked hcase).covers
  · exact Catalog.covers_of_writable rfl

/-- Only described enums have members, apart from the shared ones. -/
def TypeRegistry.Covered (cat : Catalog) (r : TypeRegistry) : Prop :=
  ∀ n t, r.get? n = some t → t.Covered cat

namespace TypeRegistry.Covered

variable {r r' : TypeRegistry} {t : TypeEntry} {n : String}

theorem put (h : r.Covered cat) (ht : t.Covered cat) : (r.put t).Covered cat :=
  fun _ _ => (ChangesAt.put r t).forall_entries (fun hu => h _ _ hu) ht

theorem modify {f : TypeEntry → TypeEntry} (h : r.Covered cat) (hf : ∀ t, (f t).head = t.head) :
    (r.modify n f).Covered cat := by
  intro m u hu
  obtain ⟨v, hv, hhead⟩ := exists_of_get?_modify hf hu
  rw [TypeEntry.Covered, TypeEntry.members_of_head hhead]
  exact h m v hv

theorem grow (h : r.Covered cat) (hg : Growth cat r r') : r'.Covered cat := by
  cases hg with
  | opened => exact h.put (TypeEntry.covered_of_no_members rfl)
  | enumerated hshape => exact h.put (Model.covered_nativeEnum hshape)
  | extended => exact h.modify (Model.head_withParent _)
  | addressed => exact h.modify Model.head_withAddress
  | filled => exact h.modify fun t => t.head_addProperty _
  | @listed entry _ resource e o d =>
    have hmembers := congrArg TypeEntry.members
      (Operations.listType_head cat.config entry resource e o d)
    exact h.put (TypeEntry.covered_of_no_members hmembers)

theorem grows (h : r.Covered cat) (hg : Grows cat r r') : r'.Covered cat := by
  induction hg with
  | refl => exact h
  | tail _ step ih => exact ih.grow step

end TypeRegistry.Covered

theorem Phased.covered {seeded modeled served d : Draft}
    (h : Phased cat disk seeded modeled served d) : d.types.Covered cat := by
  have hseeded : seeded.types.Covered cat := fun _ _ ht =>
    BaseTypes.covered_of_mem (h.exactly.among ht)
  rw [h.types_eq]
  exact (hseeded.grows h.extracted.growth).grows h.bound.growth

namespace Render

end Render

namespace Pipeline

end Pipeline

namespace Sync

variable {t : Target} {files : OrderedMap String String} {d d' : Disk}

end Sync

variable {doc : Document} {output : Option FilePath} {o : Options} {after : Disk}

end HydraClient
