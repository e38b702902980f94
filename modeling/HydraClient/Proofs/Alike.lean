import HydraClient.Proofs.Extraction
import HydraClient.Proofs.FieldSteps

/-! # Work that comes out alike

Two runs that do the same from every state with a property. The visits to other classes are all that
two extractions of a class can differ in, and these are visits to the parent and to the classes that
exposed fields refer to.
-/
namespace HydraClient

open Metadata TypeRegistry

section Alike

variable {ε σ α β : Type}

/-- Two pieces of work that do the same from every state with a property, and leave a state with
another one. -/
def Alike (I J : σ → Prop) (x y : ExceptT ε (StateM σ) α) : Prop :=
  ∀ s, I s → outcome x s = outcome y s ∧ ∀ a s', Yields x s a s' → J s'

namespace Alike

variable {I J K : σ → Prop} {x y : ExceptT ε (StateM σ) α} {f g : α → ExceptT ε (StateM σ) β}

theorem same (h : ∀ s a s', I s → Yields x s a s' → J s') : Alike I J x x :=
  fun s hs => ⟨rfl, fun a s' => h s a s' hs⟩

theorem pure (a : α) : Alike I I (pure a : ExceptT ε (StateM σ) α) (Pure.pure a) := by
  refine .same fun s b s' hs h => ?_
  obtain ⟨-, rfl⟩ := Yields.pure_iff.1 h
  exact hs

theorem throw (e : ε) : Alike I J (throw e : ExceptT ε (StateM σ) α) (MonadExcept.throw e) :=
  .same fun _ _ _ _ h => absurd h Yields.not_throw

theorem lift (e : Except ε α) : Alike I I (liftM e : ExceptT ε (StateM σ) α) (liftM e) := by
  refine .same fun s a s' hs h => ?_
  obtain ⟨-, rfl⟩ := Yields.lift_iff.1 h
  exact hs

theorem get : Alike I I (get : ExceptT ε (StateM σ) σ) MonadState.get := by
  refine .same fun s t s' hs h => ?_
  obtain ⟨-, rfl⟩ := Yields.get_iff.1 h
  exact hs

theorem modify {k : σ → σ} (h : ∀ s, I s → J (k s)) :
    Alike I J (modify k : ExceptT ε (StateM σ) PUnit) (modify k) := by
  refine .same fun s u s' hs hk => ?_
  obtain rfl := Yields.modify_iff.1 hk
  exact h s hs

theorem mono (h : Alike I J x y) (hJ : ∀ s, J s → K s) : Alike I K x y :=
  fun s hs => ⟨(h s hs).1, fun a s' hx => hJ s' ((h s hs).2 a s' hx)⟩

theorem bind (hx : Alike I J x y) (hf : ∀ a, Alike J K (f a) (g a)) :
    Alike I K (x >>= f) (y >>= g) := by
  intro s hs
  obtain ⟨hxy, hleft⟩ := hx s hs
  constructor
  · rw [outcome_bind, outcome_bind, ← hxy]
    rcases hout : outcome x s with ⟨_ | a, m⟩
    · rfl
    · exact (hf a m (hleft a m hout)).1
  · intro b s' h
    obtain ⟨a, m, ha, hb⟩ := Yields.bind_iff.1 h
    exact (hf a m (hleft a m ha)).2 b s' hb

theorem map {k : α → β} (hx : Alike I J x y) : Alike I J (k <$> x) (k <$> y) := by
  rw [map_eq_pure_bind, map_eq_pure_bind]
  exact hx.bind fun a => .pure (k a)

theorem forM {l : List α} {f g : α → ExceptT ε (StateM σ) PUnit}
    (h : ∀ a ∈ l, Alike I I (f a) (g a)) : Alike I I (l.forM f) (l.forM g) := by
  induction l with
  | nil => exact Alike.pure PUnit.unit
  | cons a rest ih =>
    exact (h a List.mem_cons_self).bind fun _ => ih fun a' ha => h a' (List.mem_cons_of_mem _ ha)

theorem mapM {l : List α} {f g : α → ExceptT ε (StateM σ) β}
    (h : ∀ a ∈ l, Alike I I (f a) (g a)) : Alike I I (l.mapM f) (l.mapM g) := by
  induction l with
  | nil =>
    rw [List.mapM_nil, List.mapM_nil]
    exact .pure []
  | cons a rest ih =>
    rw [List.mapM_cons, List.mapM_cons]
    refine (h a List.mem_cons_self).bind fun b => ?_
    exact (ih fun a' ha => h a' (List.mem_cons_of_mem _ ha)).bind fun bs => .pure (b :: bs)

theorem compositional {I : Draft → Prop} : Drafting.Compositional fun _ => Alike I I where
  pure := .pure
  throw := .throw
  lift := .lift
  bind := .bind

end Alike
end Alike

namespace Model

/-- It makes no difference which of two visits is paid to a class. -/
structure AlikeAt (cat : Catalog) (I : Draft → Prop) (visit visit' : String → Drafting TypeEntry)
    (c : String) : Prop where
  model : cat.classify c = .model → Alike I I (visit c) (visit' c)
  enumeration : cat.classify c = .enumeration → ∀ file,
    Alike I I (resolveEnum cat c file) (resolveEnum cat c file)

theorem enumFile_ne (file : Option String) : (match file with
    | some f => if f = "" then BaseTypes.enumFile else f
    | none => BaseTypes.enumFile) ≠ "" := by
  cases file with
  | none => simp [BaseTypes.enumFile]
  | some f => by_cases h : f = "" <;> simp [h, BaseTypes.enumFile]

section Fields

variable {cat : Catalog} {I : Draft → Prop} {visit visit' : String → Drafting TypeEntry}
  {owner : TypeEntry} {field : Field}

theorem alike_resolveEnum_of_put {c : String} (file : Option String)
    (h : ∀ {s name file shape}, I s → s.types.lookupSource c = none →
      s.types.resolveName (enumCandidates c) c = .ok name → cat.enum? c = some shape → file ≠ "" →
      I { s with types := s.types.put (nativeEnum name c file shape) }) :
    Alike I I (resolveEnum cat c file) (resolveEnum cat c file) := by
  refine .same fun s t s' hs hy => ?_
  have hy := Yields.get_bind.1 hy
  cases hl : s.types.lookupSource c with
  | some u =>
    simp only [hl, Yields.pure_iff] at hy
    exact hy.2 ▸ hs
  | none =>
    simp only [hl] at hy
    obtain ⟨name, hname, hy⟩ := Yields.lift_bind.1 hy
    cases he : cat.enum? c with
    | none => simp [he] at hy
    | some shape =>
      simp only [he] at hy
      obtain ⟨_, m, hr, hy⟩ := Yields.bind_iff.1 hy
      obtain ⟨-, rfl⟩ := Drafting.yields_register hr
      obtain ⟨-, rfl⟩ := Yields.pure_iff.1 hy
      exact h hs hl hname he (enumFile_ne file)

theorem AlikeAt.agreesAt {c : String} (h : AlikeAt cat I visit visit' c) :
    AgreesAt (fun _ => Alike I I) cat cat visit visit' c := ⟨rfl, rfl, h.model, h.enumeration⟩

theorem alike_applyType {t : FieldType} (p : Property)
    (h : ∀ c, referred? t = some c → AlikeAt cat I visit visit' c) :
    Alike I I (applyType cat visit owner field p t) (applyType cat visit' owner field p t) :=
  Alike.compositional.applyType p fun c hc => (h c hc).agreesAt

theorem alike_buildProperty (inherited : Bool)
    (h : ∀ t ∈ field.types, ∀ c, referred? t = some c → AlikeAt cat I visit visit' c) :
    Alike I I (buildProperty cat visit owner field inherited)
      (buildProperty cat visit' owner field inherited) :=
  Alike.compositional.buildProperty inherited fun t ht c hc => (h t ht c hc).agreesAt

end Fields

section Classes

variable {cat : Catalog} {I : Draft → Prop} {visit visit' : String → Drafting TypeEntry}
  (hm : ∀ n f s, I s → I { s with types := s.types.modify n f })

include hm

theorem alike_modifyType (n : String) (f : TypeEntry → TypeEntry) :
    Alike I I (Drafting.modifyType n f) (Drafting.modifyType n f) :=
  .modify fun s hs => hm n f s hs

theorem alike_extractParent {shape : ClassDecl} (name : String)
    (hv : ∀ parent, shape.parent = some parent → cat.classify parent = .model →
      Alike I I (visit parent) (visit' parent)) :
    Alike I I (extractParent cat visit name shape) (extractParent cat visit' name shape) := by
  unfold extractParent
  split
  · exact .pure none
  · rename_i parent hparent
    split
    · exact .pure none
    · rename_i hmodel
      simp only [Bool.or_eq_true, bne_iff_ne, not_or, Decidable.not_not] at hmodel
      exact (hv parent hparent hmodel.2).bind fun p =>
        (alike_modifyType hm name (withParent p)).bind fun _ => .pure _

theorem alike_extractField {owner : TypeEntry} {className : String} {parent : Option String}
    {field : Field} (h : field.isExposed = true → ∀ t ∈ field.types, ∀ c, referred? t = some c →
      AlikeAt cat I visit visit' c) :
    Alike I I (extractField cat visit owner className parent field)
      (extractField cat visit' owner className parent field) := by
  unfold extractField
  split
  · rename_i hexposed
    exact Alike.get.bind fun d => (alike_buildProperty _ (h hexposed)).bind fun p =>
      alike_modifyType hm _ _
  · exact .pure _

theorem alike_extractNew {P : Draft → Prop} {className : String}
    (hput : ∀ t s, P s → t.source = some className → I { s with types := s.types.put t })
    (hparent : ∀ shape parent, cat.class? className = some shape → shape.parent = some parent →
      cat.classify parent = .model → Alike I I (visit parent) (visit' parent))
    (h : ∀ shape, cat.class? className = some shape → ∀ f ∈ shape.fields, f.isExposed = true →
      ∀ t ∈ f.types, ∀ c, referred? t = some c → AlikeAt cat I visit visit' c) :
    Alike P I (extractNew cat visit className) (extractNew cat visit' className) := by
  unfold extractNew
  split
  · rename_i shape hshape
    refine Alike.get.bind fun d => (Alike.lift _).bind fun name => ?_
    refine Alike.bind (J := I) (.same fun s u s' hs h => ?_) fun _ => ?_
    · obtain ⟨-, rfl⟩ := Drafting.yields_register h
      exact hput _ s hs rfl
    refine (alike_extractParent hm name (hparent shape · hshape)).bind fun parent => ?_
    have hrest : Alike I I
        (do
          shape.fields.forM (extractField cat visit (bare name className shape) className parent)
          pure (((← get).types.get? name).getD (bare name className shape)) : Drafting TypeEntry)
        (do
          shape.fields.forM (extractField cat visit' (bare name className shape) className parent)
          pure (((← get).types.get? name).getD (bare name className shape))) :=
      (Alike.forM fun f hf => alike_extractField hm (h shape hshape f hf)).bind fun _ =>
        Alike.get.bind fun _ => .pure _
    split
    · exact (alike_modifyType hm name withAddress).bind fun _ => hrest
    · exact hrest
  · exact .throw _

end Classes

end Model
end HydraClient
