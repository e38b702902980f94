import HydraClient.Proofs.FieldSteps
import HydraClient.Proofs.Guests

/-! # Work beside a guest

Work that ends without any part of a guest comes to the same with the guest in the draft: it gives
the same value and changes the same things. This is kept when work is put together, so that it is
only shown for the steps that look at the registry or change it.
-/
namespace HydraClient

open Metadata TypeRegistry

structure Grown (r r' : TypeRegistry) : Prop where
  coherent : Coherent r → Coherent r'
  names : ∀ {n}, (∃ u, r.get? n = some u) → ∃ u, r'.get? n = some u
  sources : ∀ {c}, (∃ n, r.sources.get? c = some n) → ∃ n, r'.sources.get? c = some n

namespace Grown

variable {r r' r'' : TypeRegistry} {u : TypeEntry} {c n : String}

theorem refl (r : TypeRegistry) : Grown r r := ⟨id, id, id⟩

theorem trans (h : Grown r r') (h' : Grown r' r'') : Grown r r'' :=
  ⟨fun hr => h'.coherent (h.coherent hr), fun hn => h'.names (h.names hn),
    fun hc => h'.sources (h.sources hc)⟩

theorem put (hu : u.source = some c)
    (hheld : ∀ held, r.get? u.name = some held → held.source = u.source) :
    Grown r (r.put u) where
  coherent hr := hr.put hu hheld
  names hn := by
    rw [get?_put]
    split
    · exact ⟨u, rfl⟩
    · exact hn
  sources hc := by
    rw [sources_put hu, OrderedMap.get?_insert]
    split
    · exact ⟨u.name, rfl⟩
    · exact hc

theorem modify {f : TypeEntry → TypeEntry} (hf : ∀ t, (f t).head = t.head) :
    Grown r (r.modify n f) where
  coherent hr := hr.modify hf
  names hm := by
    obtain ⟨u, hu⟩ := hm
    rw [get?_modify, hu]
    split
    · exact ⟨f u, rfl⟩
    · exact ⟨u, rfl⟩
  sources hc := hc

end Grown

theorem Drafting.register_of_held {s : Draft} {u : TypeEntry}
    (h : ∀ held, s.types.get? u.name = some held → held.source = u.source) :
    Yields (Drafting.register u) s ⟨⟩ { s with types := s.types.put u } :=
  Yields.get_bind.2 (Yields.lift_bind.2
    ⟨s.types.put u, register_ok_iff.2 ⟨h, rfl⟩, Yields.modify_iff.2 rfl⟩)

namespace Guest

variable {g : Guest} {r r' : TypeRegistry} {s s' t t' : Draft} {u : TypeEntry} {n c : String}
  {candidates : List String} {α β : Type}

theorem Absent.of_grown (h : g.Absent r') (hr : Grown r r') : g.Absent r where
  names hn := by
    by_contra hne
    obtain ⟨u, hu⟩ := hr.names (Option.ne_none_iff_exists'.1 hne)
    rw [h.names hn] at hu
    cases hu
  sources hc := by
    by_contra hne
    obtain ⟨n, hn⟩ := hr.sources (Option.ne_none_iff_exists'.1 hne)
    rw [h.sources hc] at hn
    cases hn

theorem Absent.not_names (h : g.Absent r) (hu : r.get? n = some u) : ¬g.Names n := by
  intro hn
  rw [h.names hn] at hu
  cases hu

theorem Absent.not_sources (h : g.Absent r) (hn : r.sources.get? c = some n) : ¬g.Sources c := by
  intro hc
  rw [h.sources hc] at hn
  cases hn

theorem Absent.of_put (h : g.Absent (r.put u)) (hu : u.source = some c) :
    ¬g.Names u.name ∧ ¬g.Sources c :=
  ⟨h.not_names (by rw [get?_put, if_pos rfl]),
    h.not_sources (by rw [sources_put hu, OrderedMap.get?_insert, if_pos rfl])⟩

theorem Beside.register (h : g.Beside s t) (hu : u.source = some c)
    (hheld : ∀ held, s.types.get? u.name = some held → held.source = u.source)
    (habsent : g.Absent (s.types.put u)) :
    Yields (Drafting.register u) t ⟨⟩ { t with types := t.types.put u } ∧
      g.Beside { s with types := s.types.put u } { t with types := t.types.put u } := by
  obtain ⟨hname, hsource⟩ := habsent.of_put hu
  constructor
  · apply Drafting.register_of_held
    rw [h.get?_eq hname]
    exact hheld
  · exact h.put hname hu hsource

/-- Two pieces of work of which the second does beside the guest what the first does without it. -/
def FramedAt (g : Guest) (s : Draft) (x y : Drafting α) : Prop :=
  ∀ a s', Yields x s a s' → Grown s.types s'.types ∧
    (g.Absent s'.types → ∀ t, g.Beside s t → ∃ t', Yields y t a t' ∧ g.Beside s' t')

def Framed (g : Guest) (x y : Drafting α) : Prop := ∀ s, Coherent s.types → FramedAt g s x y

namespace FramedAt

variable {x y : Drafting α} {f k : α → Drafting β}

theorem pure (a : α) : FramedAt g s (pure a) (Pure.pure a) := by
  intro b s' h
  obtain ⟨rfl, rfl⟩ := Yields.pure_iff.1 h
  exact ⟨.refl _, fun _ t ht => ⟨t, Yields.pure_iff.2 ⟨rfl, rfl⟩, ht⟩⟩

theorem throw (e : Failure) : FramedAt g s (throw e : Drafting α) y :=
  fun _ _ h => absurd h Yields.not_throw

theorem lift (e : Except Failure α) : FramedAt g s (liftM e) (liftM e) := by
  intro a s' h
  obtain ⟨ha, rfl⟩ := Yields.lift_iff.1 h
  exact ⟨.refl _, fun _ t ht => ⟨t, Yields.lift_iff.2 ⟨ha, rfl⟩, ht⟩⟩

theorem modify {φ ψ : Draft → Draft} (hgrown : Grown s.types (φ s).types)
    (h : ∀ t, g.Beside s t → g.Beside (φ s) (ψ t)) :
    FramedAt g s (modify φ : Drafting PUnit) (modify ψ) := by
  intro a s' hy
  obtain rfl := Yields.modify_iff.1 hy
  exact ⟨hgrown, fun _ t ht => ⟨ψ t, Yields.modify_iff.2 rfl, h t ht⟩⟩

theorem bind (hx : FramedAt g s x y) (hf : ∀ a m, Yields x s a m → Grown s.types m.types →
      FramedAt g m (f a) (k a)) : FramedAt g s (x >>= f) (y >>= k) := by
  intro b s' h
  obtain ⟨a, m, ha, hb⟩ := Yields.bind_iff.1 h
  obtain ⟨hgrown, hxy⟩ := hx a m ha
  obtain ⟨hgrown', hfk⟩ := hf a m ha hgrown b s' hb
  refine ⟨hgrown.trans hgrown', fun habsent t ht => ?_⟩
  obtain ⟨m', hy, hm⟩ := hxy (habsent.of_grown hgrown') t ht
  obtain ⟨t', hk, hs'⟩ := hfk habsent m' hm
  exact ⟨t', Yields.bind_iff.2 ⟨a, m', hy, hk⟩, hs'⟩

theorem map (φ : α → β) (hx : FramedAt g s x y) : FramedAt g s (φ <$> x) (φ <$> y) := by
  rw [map_eq_pure_bind, map_eq_pure_bind]
  exact hx.bind fun a _ _ _ => .pure (φ a)

/-- Work that looks at the draft may be told of the draft without the guest, if it would do the same
at the draft with the guest. -/
theorem get_bind {f k : Draft → Drafting β} (h : FramedAt g s (f s) (k s))
    (hk : ∀ t, g.Beside s t → k t = k s) : FramedAt g s (get >>= f) (get >>= k) := by
  intro b s' hy
  obtain ⟨hgrown, hframed⟩ := h b s' (Yields.get_bind.1 hy)
  refine ⟨hgrown, fun habsent t ht => ?_⟩
  obtain ⟨t', hy', ht'⟩ := hframed habsent t ht
  exact ⟨t', Yields.get_bind.2 (by rw [hk t ht]; exact hy'), ht'⟩

theorem forM {l : List α} {f k : α → Drafting PUnit}
    (h : ∀ a ∈ l, ∀ m, Grown s.types m.types → FramedAt g m (f a) (k a)) :
    FramedAt g s (l.forM f) (l.forM k) := by
  induction l generalizing s with
  | nil => exact FramedAt.pure PUnit.unit
  | cons a rest ih =>
    refine (h a List.mem_cons_self s (.refl _)).bind fun _ m _ hgrown => ih fun b hb m' hm => ?_
    exact h b (List.mem_cons_of_mem _ hb) m' (hgrown.trans hm)

theorem mapM {l : List α} (h : ∀ done a rest bs m, l = done ++ a :: rest →
      Yields (done.mapM f) s bs m → FramedAt g m (f a) (k a)) :
    FramedAt g s (l.mapM f) (l.mapM k) := by
  induction l using List.reverseRecOn with
  | nil => exact FramedAt.pure []
  | append_singleton l a ih =>
    rw [List.mapM_append, List.mapM_append]
    refine (ih fun done b rest bs m hsplit => h done b (rest ++ [a]) bs m ?_).bind
      fun bs m hbs _ => ?_
    · rw [hsplit, List.append_assoc, List.cons_append]
    · have ha := h l a [] bs m rfl hbs
      have hsingle : FramedAt g m ([a].mapM f) ([a].mapM k) := by
        rw [List.mapM_cons, List.mapM_cons]
        refine ha.bind fun b m' _ _ => ?_
        exact (FramedAt.pure []).bind fun _ _ _ _ => .pure _
      exact hsingle.bind fun _ _ _ _ => .pure _

theorem register (hu : u.source = some c) :
    FramedAt g s (Drafting.register u) (Drafting.register u) := by
  intro _ s' h
  obtain ⟨hheld, rfl⟩ := Drafting.yields_register h
  refine ⟨.put hu hheld, fun habsent t ht => ?_⟩
  obtain ⟨hy, hbeside⟩ := ht.register hu hheld habsent
  exact ⟨_, hy, hbeside⟩

theorem modifyType {f : TypeEntry → TypeEntry} (hf : ∀ t, (f t).head = t.head) :
    FramedAt g s (Drafting.modifyType n f) (Drafting.modifyType n f) :=
  .modify (.modify hf) fun _ ht => ht.modifyType hf

theorem modifyEntry {f : EndpointEntry → EndpointEntry} (hc : c ≠ g.source) :
    FramedAt g s (Drafting.modifyEntry c f) (Drafting.modifyEntry c f) :=
  .modify (.refl _) fun _ ht => ht.modifyEntry hc

/-- What the work comes to with the guest, it comes to beside what it comes to without. -/
theorem beside {a b : α} (h : FramedAt g s x y) (ht : g.Beside s t) (hx : Yields x s a s')
    (hy : Yields y t b t') (habsent : g.Absent s'.types) : g.Beside s' t' := by
  obtain ⟨t₁, hy₁, hbeside⟩ := (h a s' hx).2 habsent t ht
  obtain rfl : t' = t₁ := (Prod.mk.inj (hy.symm.trans hy₁)).2
  exact hbeside

end FramedAt

theorem compositional_framed (g : Guest) : Drafting.Compositional fun _ => Framed g where
  pure a _ _ := .pure a
  throw e _ _ := .throw e
  lift e _ _ := .lift e
  bind hx hf s hs := (hx s hs).bind fun a m _ hgrown => hf a m (hgrown.coherent hs)

end Guest
end HydraClient
