import HydraClient.Model
import Mathlib.Data.List.DropRight

/-! # Fields step by step

What is done for a field looks its classes up and puts its property together form by form. A
relation between two pieces of such work that the visits to classes have and composition keeps is
one that the whole work of a field has.
-/
namespace HydraClient

open Metadata

namespace Drafting

/-- A relation between two pieces of work that composition keeps. -/
structure Compositional (W : ∀ α : Type, Drafting α → Drafting α → Prop) : Prop where
  pure : ∀ {α : Type} (a : α), W α (Pure.pure a) (Pure.pure a)
  throw : ∀ {α : Type} (e : Failure), W α (MonadExcept.throw e) (MonadExcept.throw e)
  lift : ∀ {α : Type} (r : Except Failure α), W α (liftM r) (liftM r)
  bind : ∀ {α β : Type} {x y : Drafting α} {f g : α → Drafting β}, W α x y →
    (∀ a, W β (f a) (g a)) → W β (x >>= f) (y >>= g)

namespace Compositional

variable {W : ∀ α : Type, Drafting α → Drafting α → Prop} {α β : Type}
  (hW : Compositional W)
include hW

theorem map {x y : Drafting α} (f : α → β) (h : W α x y) : W β (f <$> x) (f <$> y) := by
  rw [map_eq_pure_bind, map_eq_pure_bind]
  exact hW.bind h fun a => hW.pure (f a)

theorem foldlM {l : List α} {f g : β → α → Drafting β} (h : ∀ b, ∀ a ∈ l, W β (f b a) (g b a))
    (b : β) : W β (l.foldlM f b) (l.foldlM g b) := by
  induction l generalizing b with
  | nil =>
    rw [List.foldlM_nil, List.foldlM_nil]
    exact hW.pure b
  | cons a rest ih =>
    rw [List.foldlM_cons, List.foldlM_cons]
    exact hW.bind (h b a List.mem_cons_self) (ih fun b a' ha => h b a' (List.mem_cons_of_mem _ ha))

end Compositional
end Drafting

namespace Model

/-- The forms that a value may take, as the extraction of its type tells them apart. -/
inductive Form where
  | scalar (word : String)
  | collection (value : FieldType)
  | array
  | record
  | object (className : String)
  | unknown

def formOf (t : FieldType) : Form :=
  match scalar? t.builtin with
  | some word => .scalar word
  | none =>
    match t.collection, t.value with
    | true, some value => .collection value
    | _, _ =>
      if t.builtin = "array" then .array
      else if t.builtin = "object" then
        match t.className with
        | some c => .object c
        | none => .record
      else .unknown

def referred? (t : FieldType) : Option String :=
  match formOf t with
  | .collection value => value.className.map ClassName.relative
  | .object c => some (ClassName.relative c)
  | _ => none

theorem relative_relative (c : String) :
    ClassName.relative (ClassName.relative c) = ClassName.relative c := by
  simp [ClassName.relative, List.dropWhile_idempotent]

theorem relative_of_referred {t : FieldType} {c : String} (h : referred? t = some c) :
    ClassName.relative c = c := by
  unfold referred? at h
  split at h
  · obtain ⟨c', -, rfl⟩ := Option.map_eq_some_iff.1 h
    exact relative_relative c'
  · obtain rfl := Option.some.inj h
    exact relative_relative _
  · cases h

theorem applyType_eq {cat : Catalog} {visit : String → Drafting TypeEntry} {owner : TypeEntry}
    {field : Field} {p : Property} {t : FieldType} :
    applyType cat visit owner field p t = match formOf t with
      | .scalar word => do
        let literal ← Script.literal field.default
        pure { withNull t p with
          union := (withNull t p).union.add word
          defaultLiteral := some literal }
      | .collection value => do
        let (e, q) ← element cat visit owner field value (withNull t p)
        pure (withCollection t e q)
      | .array => pure { withNull t p with
          union := ((withNull t p).union.add "Array<any>").add "Record<number|string, any>"
          isCollection := true
          defaultLiteral := some "[]" }
      | .record => pure { withNull t p with
          union := (withNull t p).union.add "Record<string, any>" }
      | .object c => applyClass cat visit owner field c (withNull t p)
      | .unknown => throw (.builtinUnknown t.builtin owner.source field.name) := by
  unfold applyType formOf
  dsimp only
  cases scalar? t.builtin with
  | some word => rfl
  | none =>
    cases t.collection <;> cases t.value
    case true.some => rfl
    all_goals
      dsimp only
      by_cases harray : t.builtin = "array"
      · simp only [harray, if_true]
      · by_cases hobject : t.builtin = "object"
        · simp only [hobject, if_true]
          cases t.className <;> rfl
        · simp only [hobject, harray, if_false]

/-- Two catalogs deal with a class alike, and related work looks it up in them. -/
structure AgreesAt (W : ∀ α : Type, Drafting α → Drafting α → Prop) (cat cat' : Catalog)
    (visit visit' : String → Drafting TypeEntry) (c : String) : Prop where
  classify : cat'.classify c = cat.classify c
  enum? : cat'.enum? c = cat.enum? c
  model : cat.classify c = .model → W TypeEntry (visit c) (visit' c)
  enumeration : cat.classify c = .enumeration → ∀ file,
    W TypeEntry (resolveEnum cat c file) (resolveEnum cat' c file)

end Model

namespace Drafting.Compositional

open Model

variable {W : ∀ α : Type, Drafting α → Drafting α → Prop} (hW : Compositional W)
  {cat cat' : Catalog} {visit visit' : String → Drafting TypeEntry} {owner : TypeEntry}
  {field : Field}
include hW

theorem refer {c : String} {unknown : Failure} (h : AgreesAt W cat cat' visit visit' c) :
    W Referent (Model.refer cat visit owner c unknown)
      (Model.refer cat' visit' owner c unknown) := by
  unfold Model.refer
  rw [h.classify]
  cases hc : cat.classify c with
  | model => exact hW.map _ (h.model hc)
  | enumeration => exact hW.map _ (h.enumeration hc owner.file)
  | datetime | identifier | passthrough => exact hW.pure _
  | unknown => exact hW.throw unknown

theorem element {value : FieldType} (p : Property) (h : ∀ c, value.className = some c →
      AgreesAt W cat cat' visit visit' (ClassName.relative c)) :
    W (String × Property) (Model.element cat visit owner field value p)
      (Model.element cat' visit' owner field value p) := by
  unfold Model.element
  split
  · split
    · exact hW.pure _
    · split
      · exact hW.pure _
      · exact hW.throw _
  · rename_i c hc
    exact hW.bind (hW.refer (h c hc)) fun ref => hW.pure _

theorem applyClass {c : String} (p : Property)
    (h : AgreesAt W cat cat' visit visit' (ClassName.relative c)) :
    W Property (Model.applyClass cat visit owner field c p)
      (Model.applyClass cat' visit' owner field c p) := by
  have hdefault : defaultCase cat' (ClassName.relative c) field =
      defaultCase cat (ClassName.relative c) field := by
    unfold defaultCase
    rw [h.enum?]
  unfold Model.applyClass
  dsimp only
  rw [hdefault]
  refine hW.bind (hW.refer h) fun ref => ?_
  cases ref with
  | enumeration t =>
    refine hW.bind (hW.lift _) fun case? => ?_
    cases case? <;> exact hW.pure _
  | model | datetime | identifier | passthrough => exact hW.pure _

theorem applyType {t : FieldType} (p : Property)
    (h : ∀ c, referred? t = some c → AgreesAt W cat cat' visit visit' c) :
    W Property (Model.applyType cat visit owner field p t)
      (Model.applyType cat' visit' owner field p t) := by
  rw [applyType_eq, applyType_eq]
  unfold referred? at h
  cases hform : formOf t with
  | scalar word => exact hW.bind (hW.lift _) fun literal => hW.pure _
  | collection value =>
    rw [hform] at h
    exact hW.bind (hW.element _ fun c hc => h _ (by simp [hc])) fun _ => hW.pure _
  | object c =>
    rw [hform] at h
    exact hW.applyClass _ (h _ rfl)
  | array | record => exact hW.pure _
  | unknown => exact hW.throw _

theorem buildProperty (inherited : Bool) (h : ∀ t ∈ field.types, ∀ c, referred? t = some c →
      AgreesAt W cat cat' visit visit' c) :
    W Property (Model.buildProperty cat visit owner field inherited)
      (Model.buildProperty cat' visit' owner field inherited) :=
  hW.foldlM (fun p t ht => hW.applyType p (h t ht)) _

end Drafting.Compositional
end HydraClient
