import HydraClient.Proofs.Inheritance
import HydraClient.Proofs.Preservation

/-! # Properties as they are built

The property of a field is built once and then filed under the type of its class. What is true of it
then, and stays true while types are registered and changed, is true of it after a run.
-/
namespace HydraClient

open Metadata TypeRegistry Model

namespace TypeRegistry

variable {r r' : TypeRegistry} {t : TypeEntry} {s n name : String}

/-- A type of a source is registered under a name. The source may be that of query parameters as
well and lead to those, so it is not looked up. -/
def Files (r : TypeRegistry) (s n : String) : Prop := ∃ t, r.get? n = some t ∧ t.source = some s

theorem Files.put (h : r.Files s n)
    (hheld : ∀ held, r.get? t.name = some held → held.source = t.source) :
    (r.put t).Files s n := by
  obtain ⟨u, hu, hs⟩ := h
  by_cases hn : n = t.name
  · exact ⟨t, by rw [get?_put, if_pos hn], (hheld u (hn ▸ hu)).symm.trans hs⟩
  · exact ⟨u, by rw [get?_put, if_neg hn, hu], hs⟩

theorem Files.modify {f : TypeEntry → TypeEntry} (h : r.Files s n)
    (hf : ∀ t, (f t).head = t.head) : (r.modify name f).Files s n := by
  obtain ⟨u, hu, hs⟩ := h
  rw [Files, get?_modify]
  split
  · exact ⟨f u, by rw [hu, Option.map_some], (TypeEntry.source_of_head (hf u)).trans hs⟩
  · exact ⟨u, hu, hs⟩

theorem Files.of_extends (h : r.Files s n) (hr : Extends r r') : r'.Files s n := by
  obtain ⟨u, hu, hs⟩ := h
  exact ⟨u, hr.entries hu, hs⟩

end TypeRegistry

/-- What is true of the property of a field once it is built, and stays true of it. -/
structure Abiding (cat : Catalog) (Q : TypeRegistry → String → Property → Prop) : Prop where
  built : ∀ {visit : String → Drafting TypeEntry} {name c : String} {shape : ClassDecl} {f : Field}
    {inherited : Bool} {s s' : Draft} {p : Property}, (∀ a, Finds cat (visit a) a) →
    Coherent s.types → Opened cat s.types name c shape → f ∈ shape.fields → f.isExposed = true →
    Yields (buildProperty cat visit (bare name c shape) f inherited) s p s' →
    Coherent s'.types → Q s'.types c p
  put : ∀ {r : TypeRegistry} {t : TypeEntry} {c : String} {p : Property}, Q r c p →
    (∀ held, r.get? t.name = some held → held.source = t.source) → Q (r.put t) c p
  modify : ∀ {r : TypeRegistry} {name c : String} {f : TypeEntry → TypeEntry} {p : Property},
    Q r c p → (∀ t, (f t).head = t.head) → Q (r.modify name f) c p

structure Upheld (Q : TypeRegistry → String → Property → Prop) (r : TypeRegistry) : Prop where
  coherent : Coherent r
  every : EveryProperty Q r

namespace Abiding

variable {cat : Catalog} {Q : TypeRegistry → String → Property → Prop} {r : TypeRegistry}
  {t : TypeEntry} {c name : String} {p : Property} {shape : ClassDecl}
  {f : TypeEntry → TypeEntry} (hQ : Abiding cat Q)
include hQ

theorem upheld_put (h : Upheld Q r) (ht : t.source = some c)
    (hheld : ∀ held, r.get? t.name = some held → held.source = t.source)
    (hempty : t.hasFactory = true → t.properties = .empty) : Upheld Q (r.put t) where
  coherent := h.coherent.put ht hheld
  every := h.every.put (fun hq => hQ.put hq hheld) hempty

theorem upheld_modify (h : Upheld Q r) (hf : ∀ t, (f t).head = t.head)
    (hnew : ∀ {t c x p}, r.get? name = some t → t.source = some c →
      (f t).properties.get? x = some p → t.properties.get? x = some p ∨ p.name = x ∧ Q r c p) :
    Upheld Q (r.modify name f) := by
  refine ⟨h.coherent.modify hf, h.every.modify (fun hq => hQ.modify hq hf) hf ?_⟩
  intro t c x p ht _ hs hp
  exact (hnew ht hs hp).imp_right fun hnew => ⟨hnew.1, hQ.modify hnew.2 hf⟩

theorem upheld_addProperty (h : Upheld Q r) (ho : Opened cat r name c shape) (hp : Q r c p) :
    Upheld Q (r.modify name (·.addProperty p)) := by
  refine hQ.upheld_modify h (fun t => t.head_addProperty p) fun {t c' x q} ht hs hq => ?_
  rw [TypeEntry.addProperty, OrderedMap.get?_insert] at hq
  split at hq
  · rename_i hx
    obtain rfl := Option.some.inj hq
    obtain ⟨u, hu, hhead⟩ := ho.registered
    obtain rfl := Option.some.inj (ht.symm.trans hu)
    have hsource : t.source = some c := TypeEntry.source_of_head hhead
    obtain rfl := Option.some.inj (hs.symm.trans hsource)
    exact .inr ⟨hx.symm, hp⟩
  · exact .inl hq

theorem steady : Steady cat (Upheld Q) where
  coherent h := h.coherent
  put h ht _ hfree hempty :=
    hQ.upheld_put h ht (fun held hheld => by simp [hfree] at hheld) fun _ => hempty
  modify h hf hsame := hQ.upheld_modify h hf fun _ _ hp => .inl (hsame _ ▸ hp)
  add hv hs ho hmem hexposed hbuild hm := by
    obtain ⟨hextracted, -⟩ := built_of_buildProperty hv rfl ho.houses hs hbuild
    exact hQ.upheld_addProperty hm (ho.of_extends hextracted.kept)
      (hQ.built hv hs ho hmem hexposed hbuild hm.coherent)
  list h _ _ ht hplain hheld := by
    refine hQ.upheld_put h ht hheld fun hmade => ?_
    rw [Inheritance.isMade_of_hasFactory hmade] at hplain
    cases hplain

theorem of_phased {disk : Disk} {seeded modeled served d : Draft}
    (hp : Phased cat disk seeded modeled served d) : EveryProperty Q d.types := by
  -- No base type is made from fields, so at first there is nothing to show.
  have hseeded : Upheld Q seeded.types := by
    refine ⟨hp.exactly.coherent, ⟨fun ht hmade => ?_⟩⟩
    rw [hasFactory_of_exactly hp.exactly ht] at hmade
    cases hmade
  exact (hQ.steady.lasting.of_phased (fun _ _ => trivial) hp hseeded).every

end Abiding
end HydraClient
