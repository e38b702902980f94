import HydraClient.Operations
import HydraClient.Proofs.Work

/-! # Filters step by step

Filters look at the resource, contribute fields and imports, and write enumerated values out. A
relation between two pieces of such work that every step has and composition keeps is one that the
whole work of a filter has.
-/
namespace HydraClient

open Metadata (FilterParameter)

namespace Deriving

/-- A relation of work that looks at one registry to work that looks at another, which holds of
every step of a filter but the writing of values, and which composition keeps. -/
structure Compositional (W : ∀ α : Type, Deriving α → Deriving α → Prop) (r r' : TypeRegistry) :
    Prop where
  pure : ∀ {α : Type} (a : α), W α (Pure.pure a) (Pure.pure a)
  bind : ∀ {α β : Type} {x y : Deriving α} {f g : α → Deriving β}, W α x y →
    (∀ a, W β (f a) (g a)) → W β (x >>= f) (y >>= g)
  refuse : ∀ {α : Type} {e : Failure}, e.diagnostic? ≠ none → W α (throw e) (throw e)
  contribute : ∀ name expression required collection,
    W Unit (Deriving.contribute name expression required collection)
      (Deriving.contribute name expression required collection)
  depend : ∀ file name, W Unit (Deriving.depend file name) (Deriving.depend file name)
  dependOnType : ∀ name, W Unit (Deriving.dependOnType r name) (Deriving.dependOnType r' name)

namespace Compositional

variable {W : ∀ α : Type, Deriving α → Deriving α → Prop} {r r' : TypeRegistry} {α β : Type}
  (hW : Compositional W r r')
include hW

theorem forM {l : List α} {f g : α → Deriving PUnit} (h : ∀ a ∈ l, W Unit (f a) (g a)) :
    W Unit (l.forM f) (l.forM g) := by
  induction l with
  | nil => exact hW.pure PUnit.unit
  | cons a rest ih =>
    exact hW.bind (h a List.mem_cons_self) fun _ => ih fun b hb => h b (List.mem_cons_of_mem _ hb)

theorem mapM {l : List α} {f g : α → Deriving β} (h : ∀ a, W β (f a) (g a)) :
    W (List β) (l.mapM f) (l.mapM g) := by
  induction l with
  | nil =>
    rw [List.mapM_nil, List.mapM_nil]
    exact hW.pure []
  | cons a rest ih =>
    rw [List.mapM_cons, List.mapM_cons]
    exact hW.bind (h a) fun b => hW.bind ih fun bs => hW.pure (b :: bs)

theorem foldlM {l : List α} {f g : β → α → Deriving β} (h : ∀ b a, W β (f b a) (g b a)) (b : β) :
    W β (l.foldlM f b) (l.foldlM g b) := by
  induction l generalizing b with
  | nil =>
    rw [List.foldlM_nil, List.foldlM_nil]
    exact hW.pure b
  | cons a rest ih =>
    rw [List.foldlM_cons, List.foldlM_cons]
    exact hW.bind (h b a) ih

theorem dependAll (i : Imports) : W Unit (Deriving.dependAll i) (Deriving.dependAll i) :=
  hW.forM fun _ _ => hW.forM fun _ _ => hW.depend _ _

open HydraClient.Filter

variable {resource : TypeEntry} {filter : Metadata.Filter} {key : String} {p : FilterParameter}

theorem localProperty (path : String) : W Property (Filter.localProperty resource filter path)
    (Filter.localProperty resource filter path) := by
  dsimp only [Filter.localProperty]
  split
  · exact hW.pure _
  · exact hW.refuse nofun

theorem exposedName : W String (Filter.exposedName resource filter key p)
    (Filter.exposedName resource filter key p) :=
  hW.bind (hW.localProperty _) fun _ => hW.pure _

theorem searchExpression (prop : Property) :
    W String (Filter.searchExpression r prop p) (Filter.searchExpression r' prop p) := by
  unfold Filter.searchExpression
  split
  · split
    · dsimp only
      split
      · exact hW.bind (hW.dependOnType _) fun _ => hW.bind (hW.depend _ _) fun _ => hW.pure _
      · exact hW.bind (hW.depend _ _) fun _ => hW.pure _
    · exact hW.pure _
  · exact hW.pure _

theorem searchField : W Unit (Filter.searchField r resource filter key p)
    (Filter.searchField r' resource filter key p) :=
  hW.bind (hW.localProperty _) fun prop => hW.bind (hW.dependAll _) fun _ =>
    hW.bind (hW.searchExpression prop) fun _ => hW.contribute _ _ _ _

theorem namedProperties :
    W (Option String × List String) (Filter.namedProperties resource filter)
      (Filter.namedProperties resource filter) :=
  hW.bind (hW.mapM fun _ => hW.exposedName) fun _ => hW.pure _

theorem order : W Unit (Filter.order resource filter) (Filter.order resource filter) := by
  refine hW.bind hW.namedProperties ?_
  rintro ⟨_ | name, properties⟩
  · exact hW.pure _
  · exact hW.bind (hW.depend _ _) fun _ => hW.contribute _ _ _ _

theorem existence : W Unit (Filter.existence resource filter)
    (Filter.existence resource filter) := by
  refine hW.bind hW.namedProperties ?_
  rintro ⟨_ | name, properties⟩
  · exact hW.pure _
  · exact hW.contribute _ _ _ _

theorem operators : W (OrderedMap String (List String)) (Filter.operators resource filter)
    (Filter.operators resource filter) := by
  refine hW.foldlM (fun ops e => ?_) _
  dsimp only
  split
  · exact hW.pure _
  · exact hW.bind hW.exposedName fun _ => hW.pure _

theorem date : W Unit (Filter.date resource filter) (Filter.date resource filter) := by
  refine hW.bind hW.operators fun ops => ?_
  dsimp only
  split
  · exact hW.bind (hW.depend _ _) fun _ => hW.forM fun _ _ => hW.contribute _ _ _ _
  · exact hW.forM fun _ _ => hW.contribute _ _ _ _

theorem backedEnumField
    (hvalues : W String (liftM (valueUnion p.schema)) (liftM (valueUnion p.schema))) :
    W Unit (Filter.backedEnumField r resource filter key p)
      (Filter.backedEnumField r' resource filter key p) := by
  refine hW.bind (hW.localProperty _) fun prop => ?_
  split
  · exact hW.bind (hW.dependOnType _) fun _ => hW.contribute _ _ _ _
  · exact hW.bind hvalues fun _ => hW.contribute _ _ _ _

theorem derive (hvalues : filter.kind = .backedEnum → ∀ e ∈ filter.parameters.entries,
      W String (liftM (valueUnion e.2.schema)) (liftM (valueUnion e.2.schema))) :
    W Unit (Filter.derive r resource filter) (Filter.derive r' resource filter) := by
  unfold Filter.derive
  cases hkind : filter.kind with
  | search => exact hW.forM fun _ _ => hW.searchField
  | order => exact hW.order
  | date => exact hW.date
  | boolean =>
    exact hW.forM fun _ _ => hW.bind hW.exposedName fun _ => hW.contribute _ _ _ _
  | existence => exact hW.existence
  | range => exact hW.bind hW.operators fun _ => hW.forM fun _ _ => hW.contribute _ _ _ _
  | backedEnum => exact hW.forM fun e he => hW.backedEnumField (hvalues hkind e he)

theorem deriveFields {cat : Catalog} {o : Metadata.Operation}
    (hvalues : ∀ f ∈ cat.filtersOf o.filters, f.kind = .backedEnum → ∀ e ∈ f.parameters.entries,
      W String (liftM (valueUnion e.2.schema)) (liftM (valueUnion e.2.schema))) :
    W Unit (Operations.deriveFields cat r resource o)
      (Operations.deriveFields cat r' resource o) :=
  hW.forM fun f hf => hW.derive (hvalues f hf)

end Compositional
end Deriving
end HydraClient
