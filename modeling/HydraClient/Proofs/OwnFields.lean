import HydraClient.Proofs.FilterSteps
import HydraClient.Proofs.Growth

/-! # Fields of a list operation by itself

Filters look at the registry for imports only. The fields that they contribute follow from the
declaration of the operation and from the type that is listed, so they can be told without a run.
-/
namespace HydraClient

open Metadata

namespace Deriving

variable {α β : Type} {x y : Deriving α} {f g : α → Deriving β}

/-- Work that comes out the same, and with the same fields, from drafts of the same fields. -/
def Agree (x y : Deriving α) : Prop :=
  ∀ d d', d'.fields = d.fields → (outcome x d).1 = (outcome y d').1 ∧
    (outcome x d).2.fields = (outcome y d').2.fields

namespace Agree

theorem pure (a : α) : Agree (Pure.pure a) (Pure.pure a) := fun _ _ h => ⟨rfl, h.symm⟩

theorem throw (e : Failure) : Agree (MonadExcept.throw e : Deriving α) (MonadExcept.throw e) :=
  fun _ _ h => ⟨rfl, h.symm⟩

theorem lift (e : Except Failure α) : Agree (liftM e : Deriving α) (liftM e) :=
  fun _ _ h => ⟨rfl, h.symm⟩

theorem bind (hx : Agree x y) (hf : ∀ a, Agree (f a) (g a)) : Agree (x >>= f) (y >>= g) := by
  intro d d' h
  simp only [outcome_bind]
  obtain ⟨hresult, hfields⟩ := hx d d' h
  rcases hxd : outcome x d with ⟨rx, dx⟩
  rcases hyd : outcome y d' with ⟨ry, dy⟩
  rw [hxd, hyd] at hresult hfields
  obtain rfl : rx = ry := hresult
  cases rx with
  | error e => exact ⟨rfl, hfields⟩
  | ok a => exact hf a dx dy hfields.symm

theorem contribute {name expression : String} {required collection : Bool} :
    Agree (Deriving.contribute name expression required collection)
      (Deriving.contribute name expression required collection) := fun _ _ h =>
  ⟨rfl, congrArg (FilterFields.contribute · name expression required collection) h.symm⟩

theorem depend {file file' n n' : String} :
    Agree (Deriving.depend file n) (Deriving.depend file' n') := by
  intro d d' h
  have hfields (e : Derivation) (f m : String) :
      (outcome (Deriving.depend f m) e).2.fields = e.fields := by
    change (if f = "" then e else { e with imports := e.imports.add f m }).fields = e.fields
    split <;> rfl
  exact ⟨rfl, by rw [hfields, hfields, h]⟩

theorem dependOnType {r r' : TypeRegistry} {n : String} :
    Agree (Deriving.dependOnType r n) (Deriving.dependOnType r' n) := by
  have none_or_one (r : TypeRegistry) : (∃ f, Deriving.dependOnType r n = Deriving.depend f n) ∨
      Deriving.dependOnType r n = Pure.pure () := by
    unfold Deriving.dependOnType
    split
    · split
      · exact .inl ⟨_, rfl⟩
      · exact .inr rfl
    · exact .inr rfl
  have keeps (f : String) : Agree (Deriving.depend f n) (Pure.pure ()) := fun d d' h => by
    have hdepend : Agree (Deriving.depend f n) (Deriving.depend "" n) := .depend
    exact ⟨rfl, (hdepend d d' h).2⟩
  rcases none_or_one r with ⟨f, hf⟩ | hf <;> rcases none_or_one r' with ⟨f', hf'⟩ | hf' <;>
    rw [hf, hf']
  · exact .depend
  · exact keeps f
  · exact fun d d' h => ⟨rfl, (keeps f' d' d h.symm).2.symm⟩
  · exact .pure ()

theorem compositional (r r' : TypeRegistry) : Compositional (fun _ x y => Agree x y) r r' where
  pure := pure
  bind := bind
  refuse _ := throw _
  contribute _ _ _ _ := contribute
  depend _ _ := depend
  dependOnType _ := dependOnType

end Agree
end Deriving

namespace Operations

variable {cat : Catalog} {r r' : TypeRegistry} {entry : EndpointEntry} {resource : TypeEntry}
  {e : Exposure} {o : Operation} {d : Derivation}

theorem agree_deriveFields :
    Deriving.Agree (deriveFields cat r resource o) (deriveFields cat r' resource o) :=
  (Deriving.Agree.compositional r r').deriveFields fun _ _ _ _ _ => .lift _

def ownFields (cat : Catalog) (resource : TypeEntry) (e : Exposure) (o : Operation) :
    FilterFields :=
  (outcome (deriveFields cat {} resource o) ⟨(pagingFields cat.config e o).1, .empty⟩).2.fields

def ownProperties (cat : Catalog) (resource : TypeEntry) (e : Exposure) (o : Operation) :
    OrderedMap String Property := listProperties (ownFields cat resource e o)

theorem listType_properties
    (h : Yields (deriveFields cat r resource o)
      ⟨(pagingFields cat.config e o).1, (listBase cat.config entry resource e o).imports⟩ ⟨⟩ d) :
    (listType cat.config entry resource e o d).properties = ownProperties cat resource e o := by
  have hagree : Deriving.Agree (deriveFields cat r resource o) (deriveFields cat {} resource o) :=
    agree_deriveFields
  have hfields := (hagree ⟨(pagingFields cat.config e o).1,
    (listBase cat.config entry resource e o).imports⟩ ⟨_, .empty⟩ rfl).2
  rw [Yields] at h
  rw [h] at hfields
  exact congrArg listProperties hfields

end Operations
end HydraClient
