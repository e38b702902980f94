import HydraClient.Proofs.Requests
import HydraClient.Proofs.Serving

/-! # What stays while types are extracted

Extraction may break off anywhere. Wherever it does, every type that was registered is still there
under its name for its source, and the bindings of the classes are untouched.
-/
namespace HydraClient

open Metadata TypeRegistry Model

namespace TypeRegistry

variable {r : TypeRegistry} {t : TypeEntry} {c m n : String}

def Stores (r : TypeRegistry) (c n : String) : Prop := ∃ t, r.get? n = some t ∧ t.source = some c

theorem Stores.put (h : r.Stores c n)
    (ht : ∀ held, r.get? t.name = some held → held.source = t.source) : (r.put t).Stores c n := by
  obtain ⟨held, hheld, hsource⟩ := h
  by_cases hn : n = t.name
  · exact ⟨t, by simp [get?_put, hn], (ht held (hn ▸ hheld)).symm.trans hsource⟩
  · exact ⟨held, by rw [get?_put, if_neg hn, hheld], hsource⟩

theorem Stores.modify {f : TypeEntry → TypeEntry} (h : r.Stores c n)
    (hf : ∀ t, (f t).head = t.head) : (r.modify m f).Stores c n := by
  obtain ⟨held, hheld, hsource⟩ := h
  by_cases hn : n = m
  · exact ⟨f held, by simp [get?_modify, hn, hn ▸ hheld],
      (TypeEntry.source_of_head (hf held)).trans hsource⟩
  · exact ⟨held, by rw [get?_modify, if_neg hn, hheld], hsource⟩

end TypeRegistry

def Draft.bindings (s : Draft) (c : String) : Option (String × OrderedMap String Binding) :=
  (s.operations.get? c).map fun x => (x.source, x.bindings)

structure Persists (d s : Draft) : Prop where
  coherent : Coherent s.types
  stores : ∀ {c n}, d.types.Stores c n → s.types.Stores c n
  bindings : ∀ c, s.bindings c = d.bindings c

namespace Persists

variable {d m s : Draft}

theorem refl (h : Coherent d.types) : Persists d d := ⟨h, id, fun _ => rfl⟩

theorem trans (h : Persists d m) (h' : Persists m s) : Persists d s :=
  ⟨h'.coherent, fun hn => h'.stores (h.stores hn), fun c => (h'.bindings c).trans (h.bindings c)⟩

theorem put {t : TypeEntry} {c : String} (h : Persists d s) (hc : t.source = some c)
    (ht : ∀ held, s.types.get? t.name = some held → held.source = t.source) :
    Persists d { s with types := s.types.put t } :=
  ⟨h.coherent.put hc ht, fun hn => (h.stores hn).put ht, h.bindings⟩

theorem modify {f : TypeEntry → TypeEntry} {n : String} (h : Persists d s)
    (hf : ∀ t, (f t).head = t.head) : Persists d { s with types := s.types.modify n f } :=
  ⟨h.coherent.modify hf, fun hn => (h.stores hn).modify hf, h.bindings⟩

theorem modifyEntry {f : EndpointEntry → EndpointEntry} {c : String} (h : Persists d s)
    (hf : ∀ x, (f x).source = x.source ∧ (f x).bindings = x.bindings) :
    Persists d { s with operations := s.operations.modify c f } := by
  refine ⟨h.coherent, h.stores, fun c' => Eq.trans ?_ (h.bindings c')⟩
  simp only [Draft.bindings, OrderedMap.get?_modify]
  split
  · rw [Option.map_map]
    exact congrArg (Option.map · _) (funext fun x => Prod.ext (hf x).1 (hf x).2)
  · rfl

end Persists

/-- Work that takes nothing away, whatever it comes to. -/
def Advancing {α : Type} (x : Drafting α) : Prop :=
  ∀ d, Ends (Persists d) x (fun _ => Persists d) fun _ => Persists d

section Advancing

variable {cat : Catalog}

theorem advancing_register {t : TypeEntry} {c : String} (hc : t.source = some c) :
    Advancing (Drafting.register t) := by
  intro d
  refine .get_bind fun m hm => ?_
  refine Ends.bind (Q := fun r s => s = m ∧ m.types.register t = .ok r)
    (.lift (fun r s hr hs => ⟨hs, hr⟩) fun _ s _ hs => hs ▸ hm) fun r => .modify ?_
  rintro s ⟨rfl, hr⟩
  obtain ⟨hheld, rfl⟩ := register_ok_iff.1 hr
  exact hm.put hc hheld

theorem advancing_resolveEnum (c : String) (file : Option String) :
    Advancing (resolveEnum cat c file) := by
  intro d
  refine ends_resolveEnum file (fun s hs => hs.coherent) (fun s t hs _ => hs) (fun s e hs _ => hs)
    (fun _ s hs => hs) fun s name file shape hs _ hname _ => hs.put rfl (resolveName_ok hname).2

section Classes

variable {visit : String → Drafting TypeEntry} {owner : TypeEntry} (hv : ∀ c, Advancing (visit c))

include hv

theorem advancing_buildProperty (field : Field) (inherited : Bool) :
    Advancing (buildProperty cat visit owner field inherited) := by
  intro d
  refine ends_buildProperty (I := fun _ => Persists d) inherited ?_ ?_ ?_ ?_
  · exact fun _ _ _ c _ _ => ⟨fun _ => hv c d, fun _ file => advancing_resolveEnum c file d⟩
  · exact fun _ _ _ _ _ _ s hs => hs
  · exact fun _ _ _ _ _ _ _ s hs => hs
  · exact fun _ _ _ _ _ s _ hs => hs

theorem ends_extractNew_persists {className : String} {d : Draft} :
    Ends (fun s => Persists d s ∧ s.types.lookupSource className = none)
      (extractNew cat visit className) (fun _ => Persists d) fun _ => Persists d := by
  cases hc : cat.class? className with
  | none =>
    unfold extractNew
    simp only [hc]
    exact .throw fun s hs => hs.1
  | some shape =>
    refine ends_extractNew (I := fun _ _ => Persists d) hc ?_ ?_ ?_ ?_ ?_ ?_
    · exact fun s e hs _ => hs.1
    · exact fun s name hs hname => hs.1.coherent.resolveName_fresh hs.2 hname
    · intro s name hs hname
      refine Ends.mono (P := Persists d) (ends_extractParent (Q := Persists d) ?_ ?_)
        (fun m hm => hm ▸ hs.1.put rfl (resolveName_ok hname).2) (fun _ _ h => h) fun _ _ h => h
      · exact fun _ m hm => hm
      · exact fun n _ _ _ => (hv n d).mono (fun _ h => h)
          (fun p m hm => hm.modify (head_withParent p)) fun _ _ h => h
    · exact fun name s hs => hs.modify head_withAddress
    · intro name parent done field rest _
      refine ends_extractField (R := Persists d) (fun _ m hm => hm) ?_ ?_
      · exact fun _ inherited => advancing_buildProperty hv field inherited d
      · exact fun p m hm => hm.modify fun t => t.head_addProperty p
    · exact fun name s hs => hs

end Classes

theorem advancing_extractWithin (depth : Nat) (c : String) :
    Advancing (extractWithin cat depth c) := by
  induction depth generalizing c with
  | zero => exact fun d => .throw fun s hs => hs
  | succ depth ih =>
    refine fun d => .get_bind fun m hm => ?_
    cases hl : m.types.lookupSource c with
    | some t => exact .pure fun s hs => hs ▸ hm
    | none =>
      exact (ends_extractNew_persists ih).mono (fun s hs => hs ▸ ⟨hm, hl⟩) (fun _ _ h => h)
        fun _ _ h => h

theorem advancing_extract (c : String) : Advancing (extract cat c) :=
  advancing_extractWithin _ c

end Advancing

end HydraClient
