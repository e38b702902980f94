import HydraClient.Proofs.Alike
import Mathlib.Data.Finset.Card
import Mathlib.Logic.Function.Iterate

/-! # Depth of extraction

A class is looked up before it is extracted, so every class on the way down is new. Beside the first
one these are described classes and their parents, of which there are only so many. The bound on the
depth is never reached, and extraction is the recursion over the classes of a document.
-/
namespace HydraClient

open Metadata TypeRegistry

namespace Model

section Met

variable {cat : Catalog} {r r' : TypeRegistry} {t : TypeEntry} {c : String}

/-- Every class that another class leads to: a described one, or a parent as its child spells it. -/
def met (cat : Catalog) : List String :=
  cat.classes.keys ++ cat.classes.values.filterMap (·.parent)

theorem length_met_le (cat : Catalog) : (met cat).length ≤ 2 * cat.classes.size := by
  have hkeys : cat.classes.keys.length = cat.classes.size := List.length_map _
  have hvalues : cat.classes.values.length = cat.classes.size := List.length_map _
  have hparents := List.length_filterMap_le (fun d : ClassDecl => d.parent) cat.classes.values
  rw [met, List.length_append]
  omega

theorem referred_mem_met {form : FieldType} (hform : referred? form = some c)
    (h : cat.classify c = .model) : c ∈ met cat := by
  obtain ⟨shape, hc⟩ := Catalog.classify_eq_model_iff.1 h
  rw [Catalog.class?, relative_of_referred hform] at hc
  exact List.mem_append_left _ (OrderedMap.mem_keys_iff.2 ⟨shape, hc⟩)

theorem parent_mem_met {shape : ClassDecl} {parent : String} (hc : cat.class? c = some shape)
    (hp : shape.parent = some parent) : parent ∈ met cat := by
  have hvalue : shape ∈ cat.classes.values := OrderedMap.mem_values_iff.2 ⟨_, hc⟩
  exact List.mem_append_right _ (List.mem_filterMap.2 ⟨shape, hvalue, hp⟩)

def unseen (cat : Catalog) (r : TypeRegistry) : Finset String :=
  (met cat).toFinset.filter fun n => (r.lookupSource n).isNone

theorem mem_unseen : c ∈ unseen cat r ↔ c ∈ met cat ∧ r.lookupSource c = none := by
  simp [unseen]

theorem card_unseen_le (cat : Catalog) (r : TypeRegistry) :
    (unseen cat r).card ≤ 2 * cat.classes.size :=
  calc (unseen cat r).card
    _ ≤ (met cat).toFinset.card := Finset.card_filter_le _ _
    _ ≤ (met cat).length := List.toFinset_card_le _
    _ ≤ 2 * cat.classes.size := length_met_le cat

theorem lookupSource_put_none (h : (r.put t).lookupSource c = none) :
    r.lookupSource c = none ∧ t.source ≠ some c := by
  constructor
  · by_contra hc
    obtain ⟨u, hu⟩ := Option.ne_none_iff_exists'.1 hc
    obtain ⟨n, hn, hget⟩ := lookupSource_eq_some.1 hu
    have hsource : ∃ m, (r.put t).sources.get? c = some m ∧ (m = n ∨ m = t.name) := by
      cases hs : t.source with
      | none => exact ⟨n, by simp [put, hs, hn], .inl rfl⟩
      | some s =>
        rw [sources_put hs, OrderedMap.get?_insert]
        split
        · exact ⟨t.name, rfl, .inr rfl⟩
        · exact ⟨n, hn, .inl rfl⟩
    obtain ⟨m, hm, hname⟩ := hsource
    have hentry : ∃ v, (r.put t).get? m = some v := by
      rw [get?_put]
      split
      · exact ⟨t, rfl⟩
      · rename_i hne
        exact ⟨u, hname.resolve_right hne ▸ hget⟩
    obtain ⟨v, hv⟩ := hentry
    rw [lookupSource_eq_some.2 ⟨m, hm, hv⟩] at h
    cases h
  · intro hs
    rw [lookupSource_put hs] at h
    cases h

theorem unseen_put_subset : unseen cat (r.put t) ⊆ unseen cat r := by
  intro n hn
  obtain ⟨hmet, hnone⟩ := mem_unseen.1 hn
  exact mem_unseen.2 ⟨hmet, (lookupSource_put_none hnone).1⟩

theorem unseen_put_ssubset (hc : c ∈ unseen cat r) (ht : t.source = some c) :
    unseen cat (r.put t) ⊂ unseen cat r := by
  refine Finset.ssubset_iff_subset_ne.2 ⟨unseen_put_subset, fun e => ?_⟩
  rw [← e] at hc
  exact (lookupSource_put_none (mem_unseen.1 hc).2).2 ht

theorem unseen_modify (n : String) (f : TypeEntry → TypeEntry) :
    unseen cat (r.modify n f) = unseen cat r := by
  ext c
  rw [mem_unseen, mem_unseen, lookupSource_modify]
  split <;> simp

end Met

section Bound

variable {cat : Catalog} {c : String} {k : Nat}

def Fewer (cat : Catalog) (k : Nat) (s : Draft) : Prop := (unseen cat s.types).card < k

theorem Fewer.put {s : Draft} {t : TypeEntry} (h : Fewer cat k s) :
    Fewer cat k { s with types := s.types.put t } :=
  (Finset.card_le_card unseen_put_subset).trans_lt h

theorem Fewer.put_new {s : Draft} {t : TypeEntry} (h : Fewer cat (k + 1) s) (hc : c ∈ met cat)
    (hl : s.types.lookupSource c = none) (ht : t.source = some c) :
    Fewer cat k { s with types := s.types.put t } := by
  have hcard := Finset.card_lt_card (unseen_put_ssubset (mem_unseen.2 ⟨hc, hl⟩) ht)
  unfold Fewer at h ⊢
  dsimp only
  omega

theorem Fewer.modify {s : Draft} (n : String) (f : TypeEntry → TypeEntry) (h : Fewer cat k s) :
    Fewer cat k { s with types := s.types.modify n f } := by
  rw [Fewer, unseen_modify]
  exact h

theorem fewer_bound (s : Draft) : Fewer cat (2 * cat.classes.size + 1) s :=
  Nat.lt_succ_of_le (card_unseen_le cat s.types)

/-- One call of the extraction of a class, in terms of the calls that it makes itself. -/
def visitOnce (cat : Catalog) (visit : String → Drafting TypeEntry) (className : String) :
    Drafting TypeEntry := do
  match (← get).types.lookupSource className with
  | some t => pure t
  | none => extractNew cat visit className

section Once

variable {visit visit' : String → Drafting TypeEntry}

theorem outcome_visitOnce {s : Draft} :
    outcome (visitOnce cat visit c) s = match s.types.lookupSource c with
      | some t => (.ok t, s)
      | none => outcome (extractNew cat visit c) s := by
  have hget : outcome (get : Drafting Draft) s = (.ok s, s) := rfl
  rw [visitOnce, outcome_bind, hget]
  dsimp only
  split <;> rfl

theorem alike_visitOnce {j : Nat} (hle : k ≤ j)
    (hput : ∀ t s, Fewer cat j s → s.types.lookupSource c = none → t.source = some c →
      Fewer cat k { s with types := s.types.put t })
    (hvisit : ∀ c ∈ met cat, Alike (Fewer cat k) (Fewer cat k) (visit c) (visit' c)) :
    Alike (Fewer cat j) (Fewer cat j) (visitOnce cat visit c) (visitOnce cat visit' c) := by
  intro s hs
  simp only [Yields, outcome_visitOnce]
  cases hl : s.types.lookupSource c with
  | some t =>
    refine ⟨rfl, fun a s' h => ?_⟩
    obtain rfl := (Prod.mk.inj h).2
    exact hs
  | none =>
    have hnew : Alike (fun s => Fewer cat j s ∧ s.types.lookupSource c = none) (Fewer cat k)
        (extractNew cat visit c) (extractNew cat visit' c) :=
      alike_extractNew (fun n f s hs => hs.modify n f) (fun t s hP => hput t s hP.1 hP.2)
        (fun shape parent hc hp _ => hvisit parent (parent_mem_met hc hp))
        fun shape hshape f hf hexposed form hform c hc =>
          ⟨fun hmodel => hvisit c (referred_mem_met hc hmodel),
            fun _ file => alike_resolveEnum_of_put file fun hs _ _ _ _ => hs.put⟩
    obtain ⟨heq, hleft⟩ := hnew s ⟨hs, hl⟩
    exact ⟨heq, fun a s' h => (hleft a s' h).trans_le hle⟩

end Once

/-- Calls that are deep enough for all new names come out the same, however the calls below them
would end. -/
theorem alike_iterate {m n : Nat} {unfinished unfinished' : String → Drafting TypeEntry}
    (hc : c ∈ met cat) (hm : k ≤ m) (hn : k ≤ n) :
    Alike (Fewer cat k) (Fewer cat k) ((visitOnce cat)^[m] unfinished c)
      ((visitOnce cat)^[n] unfinished' c) := by
  -- Every call takes a new name, so the induction is on the number of new names.
  induction k generalizing c m n with
  | zero => exact fun s hs => absurd hs (Nat.not_lt_zero _)
  | succ k ih =>
    obtain ⟨m, rfl⟩ := Nat.exists_eq_succ_of_ne_zero (by omega : m ≠ 0)
    obtain ⟨n, rfl⟩ := Nat.exists_eq_succ_of_ne_zero (by omega : n ≠ 0)
    rw [Function.iterate_succ_apply', Function.iterate_succ_apply']
    exact alike_visitOnce (by omega) (fun t s hs hl ht => hs.put_new hc hl ht)
      fun c hc => ih hc (by omega) (by omega)

theorem extractWithin_eq_iterate (depth : Nat) :
    extractWithin cat depth = (visitOnce cat)^[depth] fun c => throw (.classUndescribed c) := by
  induction depth with
  | zero => rfl
  | succ depth ih =>
    rw [Function.iterate_succ_apply', ← ih]
    rfl

/-- Extraction makes no calls below the bound on the depth. -/
theorem iterate_eq_extract {depth : Nat} (hdepth : depthBound cat ≤ depth)
    (unfinished : String → Drafting TypeEntry) :
    (visitOnce cat)^[depth] unfinished = extract cat := by
  obtain ⟨m, rfl, hm⟩ : ∃ m, depth = m + 1 ∧ 2 * cat.classes.size + 1 ≤ m :=
    ⟨depth - 1, by unfold depthBound at hdepth; omega, by unfold depthBound at hdepth; omega⟩
  have hextract : extract cat = (visitOnce cat)^[2 * cat.classes.size + 1 + 1]
      fun c => throw (.classUndescribed c) := by
    rw [← extractWithin_eq_iterate]
    rfl
  funext c s
  rw [hextract, Function.iterate_succ_apply', Function.iterate_succ_apply']
  refine (alike_visitOnce le_rfl (fun t s hs _ _ => hs.put) (fun c hc => ?_) s (fewer_bound s)).1
  exact alike_iterate hc hm le_rfl

/-- Extraction is the recursion over classes, with no bound in it. -/
theorem extract_eq_visitOnce : extract cat = visitOnce cat (extract cat) := by
  have hmore := iterate_eq_extract (Nat.le_succ (depthBound cat)) (extract cat)
  rwa [Function.iterate_succ_apply', iterate_eq_extract le_rfl, eq_comm] at hmore

end Bound
end Model
end HydraClient
