import HydraClient.Proofs.FilterSteps
import HydraClient.Proofs.ListTypes

/-! # Imports of query parameters

Filters add imports and do nothing else to them, whatever they find in the registry. So the
interface of query parameters imports the shared interface that it extends, for every document.
-/
namespace HydraClient

open Metadata TypeRegistry

namespace Deriving

variable {α β : Type} {x : Deriving α} {f : α → Deriving β}

def KeepsImports (I : Imports → Prop) (x : Deriving α) : Prop :=
  ∀ d, I d.imports → I (outcome x d).2.imports

namespace KeepsImports

variable {I : Imports → Prop}

theorem pure (a : α) : KeepsImports I (Pure.pure a) := fun _ h => h

theorem throw (e : Failure) : KeepsImports I (MonadExcept.throw e : Deriving α) := fun _ h => h

theorem lift (e : Except Failure α) : KeepsImports I (liftM e : Deriving α) := fun _ h => h

theorem bind (hx : KeepsImports I x) (hf : ∀ a, KeepsImports I (f a)) :
    KeepsImports I (x >>= f) := by
  intro d h
  have hmid := hx d h
  rw [outcome_bind]
  generalize outcome x d = out at hmid ⊢
  obtain ⟨_ | a, m⟩ := out
  · exact hmid
  · exact hf a m hmid

theorem contribute {name expression : String} {required collection : Bool} :
    KeepsImports I (Deriving.contribute name expression required collection) := fun _ h => h

variable (hadd : ∀ {i : Imports} {file n : String}, I i → I (i.add file n))
include hadd

theorem depend {file n : String} : KeepsImports I (Deriving.depend file n) := by
  intro d h
  change I (if file = "" then d else { d with imports := d.imports.add file n }).imports
  split
  · exact h
  · exact hadd h

theorem dependOnType {r : TypeRegistry} {n : String} :
    KeepsImports I (Deriving.dependOnType r n) := by
  unfold Deriving.dependOnType
  split
  · split
    · exact .depend hadd
    · exact .pure ()
  · exact .pure ()

theorem compositional (r : TypeRegistry) : Compositional (fun _ x _ => KeepsImports I x) r r where
  pure := pure
  bind := bind
  refuse _ := throw _
  contribute _ _ _ _ := contribute
  depend _ _ := depend hadd
  dependOnType _ := dependOnType hadd

end KeepsImports
end Deriving

namespace Operations

variable {cat : Catalog} {r : TypeRegistry} {entry : EndpointEntry} {resource : TypeEntry}
  {e : Exposure} {o : Operation} {d : Derivation}

theorem keeps_deriveFields {I : Imports → Prop} {fields : FilterFields} {i : Imports}
    (hadd : ∀ {i : Imports} {file n : String}, I i → I (i.add file n)) (hi : I i)
    (h : Yields (deriveFields cat r resource o) ⟨fields, i⟩ ⟨⟩ d) : I d.imports := by
  have hkeeps : Deriving.KeepsImports I (deriveFields cat r resource o) :=
    (Deriving.KeepsImports.compositional hadd r).deriveFields fun _ _ _ _ _ => .lift _
  have hleft := hkeeps ⟨fields, i⟩ hi
  rw [Yields] at h
  rwa [h] at hleft

theorem takes_listParams
    (h : Yields (deriveFields cat r resource o)
      ⟨(pagingFields cat.config e o).1, (listBase cat.config entry resource e o).imports⟩ ⟨⟩ d) :
    (listType cat.config entry resource e o d).imports.Takes BaseTypes.apiTypesFile "ListParams" :=
  keeps_deriveFields (I := (·.Takes BaseTypes.apiTypesFile "ListParams"))
    (fun hi => Imports.takes_add.2 (.inr hi)) (takes_listBase.2 (.inr (.inr ⟨rfl, rfl⟩))) h

end Operations
end HydraClient
