import HydraClient.Proofs.Runs
import HydraClient.Proofs.UnknownShapes

/-! # Faults of the extraction

Most failures belong to a category and are reported. The others are faults, and nothing that the
extraction of a catalog goes through catches one. They come from a runtime helper that is no text,
from values that have no form in a script, and from enumerations that hold no values.
-/
namespace HydraClient

open Metadata TypeRegistry

def Failure.IsFault (e : Failure) : Prop := e.diagnostic? = none

namespace Catalog

variable {cat : Catalog} {disk : Disk} {e : Failure}

/-- The values that scripts may have to hold: the runtime settings, defaults of fields, values of
backed cases, enumerated values of filters over enums, and defaults of routes. -/
inductive Writes (cat : Catalog) : Json → Prop where
  | settings : Writes cat (BaseTypes.runtimeSettings cat.config)
  | default {c : String} {shape : ClassDecl} {field : Field} : cat.class? c = some shape →
      field ∈ shape.fields → Writes cat field.default
  | case {c : String} {shape : EnumDecl} {case : EnumCase} : cat.enum? c = some shape →
      shape.backed = true → case ∈ shape.cases → Writes cat case.value
  | enumerated {f : Filter} {key : String} {p : FilterParameter} {values : List Json} {v : Json} :
      f ∈ cat.filters.values → f.kind = .backedEnum → (key, p) ∈ f.parameters.entries →
      Filter.enumerated p.schema = .ok values → v ∈ values → Writes cat v
  | route {r : Route} {name : String} {v : Json} : cat.config.routesEnabled = true →
      r ∈ cat.routes → r.defaults.get? name = some v → Writes cat v

def Covers (cat : Catalog) (v : Json) : Prop :=
  ∀ reason, v.unwritable? = some reason → ∃ w, cat.Writes w ∧ w.unwritable? = some reason

theorem Writes.covers {v : Json} (h : cat.Writes v) : cat.Covers v :=
  fun _ hreason => ⟨v, h, hreason⟩

end Catalog

section Work

variable {σ α β : Type} {C : Failure → Prop} {e : Failure}

/-- Work that has a cause for every fault it breaks off by. -/
abbrev Blames (C : Failure → Prop) (x : ExceptT Failure (StateM σ) α) : Prop :=
  Ends (fun _ => True) x (fun _ _ => True) fun e _ => e.IsFault → C e

namespace Blames

variable {x : ExceptT Failure (StateM σ) α} {f : α → ExceptT Failure (StateM σ) β}

theorem pure (a : α) : Blames C (Pure.pure a : ExceptT Failure (StateM σ) α) :=
  Ends.pure fun _ _ => trivial

theorem modify (g : σ → σ) : Blames C (modifyThe σ g : ExceptT Failure (StateM σ) PUnit) :=
  Ends.modify fun _ _ => trivial

theorem throw (h : e.IsFault → C e) :
    Blames C (MonadExcept.throw e : ExceptT Failure (StateM σ) α) :=
  Ends.throw fun _ _ => h

theorem lift {y : Except Failure α} (h : ∀ e, y = .error e → e.IsFault → C e) :
    Blames C (liftM y : ExceptT Failure (StateM σ) α) :=
  Ends.lift (fun _ _ _ _ => trivial) fun e _ he _ => h e he

theorem bind (hx : Blames C x) (hf : ∀ a, Blames C (f a)) : Blames C (x >>= f) := Ends.bind hx hf

theorem get_bind {f : σ → ExceptT Failure (StateM σ) β} (h : ∀ s, Blames C (f s)) :
    Blames C (get >>= f) :=
  Ends.get_bind fun d _ => (h d).mono (fun _ _ => trivial) (fun _ _ h => h) fun _ _ h => h

theorem forM {l : List α} {f : α → ExceptT Failure (StateM σ) PUnit}
    (h : ∀ a ∈ l, Blames C (f a)) : Blames C (l.forM f) :=
  Ends.forM (I := fun _ _ => True) fun _ a _ hsplit => h a (by simp [hsplit])

theorem mapM {l : List α} {f : α → ExceptT Failure (StateM σ) β}
    (h : ∀ a ∈ l, Blames C (f a)) : Blames C (l.mapM f) :=
  Ends.mapM (I := fun _ _ => True) fun _ a _ hsplit => h a (by simp [hsplit])

theorem forIn {l : List α} {f : α → β → ExceptT Failure (StateM σ) (ForInStep β)} {b : β}
    (h : ∀ a ∈ l, ∀ b, Blames C (f a b)) : Blames C (ForIn.forIn l b f) := by
  induction l generalizing b with
  | nil =>
    rw [List.forIn_nil]
    exact .pure b
  | cons a rest ih =>
    rw [List.forIn_cons]
    refine (h a (by simp) b).bind fun step => ?_
    cases step with
    | done b => exact .pure b
    | yield b => exact ih fun a' ha => h a' (List.mem_cons_of_mem _ ha)

end Blames
end Work

variable {C : Failure → Prop}

variable {cat : Catalog} {disk : Disk}

namespace Model

variable {visit : String → Drafting TypeEntry}

end Model

namespace Operations

variable {entry : EndpointEntry} {resource : TypeEntry} {e : Exposure} {o : Operation}

end Operations

namespace Pipeline

end Pipeline
end HydraClient
