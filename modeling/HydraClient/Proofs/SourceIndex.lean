import HydraClient.Proofs.Registration
import HydraClient.Proofs.Work
import Mathlib.Data.List.Induction

/-! # The index of sources

A registry finds a type by its name or by its source. What it finds by a source is always a type of
that source, under its own name. It finds a type of every source that has one, unless a type of the
source was removed while another one stood: the source is forgotten then, until a type of it is
registered again.
-/
namespace HydraClient.TypeRegistry

inductive Action where
  | register (t : TypeEntry)
  | getOrCreate (source : String) (make : TypeEntry)
  | remove (name : String)

def attempt (r : TypeRegistry) : Action → Except Failure TypeRegistry
  | .register t => r.register t
  | .getOrCreate source make => (r.getOrCreate source make).map Prod.fst
  | .remove name => .ok (r.remove name)

/-- The registry after an action. One that is refused changes nothing. -/
def after (r : TypeRegistry) (a : Action) : TypeRegistry :=
  match r.attempt a with
  | .ok r' => r'
  | .error _ => r

def replay (actions : List Action) : TypeRegistry := actions.foldl after {}

def Grants (r : TypeRegistry) (t : TypeEntry) : Prop :=
  ∀ held, r.get? t.name = some held → held.source = t.source

inductive Registers (r : TypeRegistry) : Action → TypeEntry → Prop where
  | register {t : TypeEntry} : r.Grants t → Registers r (.register t) t
  | create {source : String} {make : TypeEntry} : r.lookupSource source = none →
      r.Grants { make with source := some source } →
      Registers r (.getOrCreate source make) { make with source := some source }

/-- A type of the source has been removed, and none has been registered since. -/
inductive Forgotten (s : String) : List Action → Prop where
  | removed {actions : List Action} {n : String} {t : TypeEntry} :
      (replay actions).get? n = some t → t.source = some s → Forgotten s (actions ++ [.remove n])
  | since {actions : List Action} {a : Action} : Forgotten s actions →
      (∀ t, (replay actions).Registers a t → t.source ≠ some s) → Forgotten s (actions ++ [a])

variable {r : TypeRegistry} {a : Action} {actions : List Action} {t u : TypeEntry} {n m s : String}
  {f : Failure}

@[simp] theorem replay_concat : replay (actions ++ [a]) = (replay actions).after a := by
  simp [replay]

theorem Registers.unique (ht : r.Registers a t) (hu : r.Registers a u) : t = u := by
  cases ht <;> cases hu <;> rfl

theorem get?_remove : (r.remove n).get? m = if m = n then none else r.get? m :=
  r.entries.get?_erase n m

theorem get?_sources_put : (r.put t).sources.get? s =
    if t.source = some s then some t.name else r.sources.get? s := by
  unfold put
  cases hs : t.source with
  | none => simp
  | some s' =>
    rw [OrderedMap.get?_insert]
    by_cases h : s = s'
    · simp [h]
    · simp [h, Ne.symm h]

theorem get?_sources_remove : (r.remove n).sources.get? s =
    if (r.get? n).bind (·.source) = some s then none else r.sources.get? s := by
  unfold remove
  cases hs : (r.get? n).bind (·.source) with
  | none => simp
  | some s' =>
    rw [OrderedMap.get?_erase]
    by_cases h : s = s'
    · simp [h]
    · simp [h, Ne.symm h]

theorem register_error (h : r.register t = .error f) :
    ∃ held, r.get? t.name = some held ∧ held.source ≠ t.source ∧
      f = .nameTaken t.name held.source t.source := by
  unfold register at h
  cases hheld : r.get? t.name with
  | none => simp [hheld] at h
  | some held =>
    by_cases hs : held.source = t.source
    · simp [hheld, hs] at h
    · simp only [hheld, hs, if_false, Except.error.injEq] at h
      exact ⟨held, rfl, hs, h.symm⟩

theorem register_of_grants (h : r.Grants t) : r.register t = .ok (r.put t) :=
  register_ok_iff.2 ⟨h, rfl⟩

theorem exists_register_error (h : ¬r.Grants t) : ∃ f, r.register t = .error f := by
  cases hr : r.register t with
  | ok r' => exact absurd (register_ok_iff.1 hr).1 h
  | error f => exact ⟨f, rfl⟩

theorem getOrCreate_of_found {make : TypeEntry} (h : r.lookupSource s = some t) :
    r.getOrCreate s make = .ok (r, t) := by
  simp only [getOrCreate, h]

theorem getOrCreate_of_lost {make : TypeEntry} (h : r.lookupSource s = none) :
    r.getOrCreate s make = (r.register { make with source := some s }).map fun r' =>
      (r', { make with source := some s }) := by
  simp only [getOrCreate, h]

/-- What an action does: it registers a type, removes a name, or changes nothing. -/
theorem after_cases (r : TypeRegistry) (a : Action) :
    (∃ t, r.Registers a t ∧ r.Grants t ∧ r.after a = r.put t) ∨
    (∃ n, a = .remove n ∧ r.after a = r.remove n) ∨
    ((∀ t, ¬r.Registers a t) ∧ r.after a = r) := by
  cases a with
  | register t =>
    by_cases h : r.Grants t
    · refine .inl ⟨t, .register h, h, ?_⟩
      simp only [after, attempt, register_of_grants h]
    · obtain ⟨f, hf⟩ := exists_register_error h
      refine .inr (.inr ⟨fun u hu => ?_, by simp only [after, attempt, hf]⟩)
      cases hu with
      | register hg => exact h hg
  | getOrCreate source make =>
    cases hs : r.lookupSource source with
    | some u =>
      refine .inr (.inr ⟨fun t ht => ?_, ?_⟩)
      · cases ht with
        | create hlost _ =>
          rw [hs] at hlost
          cases hlost
      · simp only [after, attempt, getOrCreate_of_found hs]
        rfl
    | none =>
      by_cases h : r.Grants { make with source := some source }
      · refine .inl ⟨_, .create hs h, h, ?_⟩
        simp only [after, attempt, getOrCreate_of_lost hs, register_of_grants h]
        rfl
      · obtain ⟨f, hf⟩ := exists_register_error h
        refine .inr (.inr ⟨fun u hu => ?_, ?_⟩)
        · cases hu with
          | create _ hg => exact h hg
        · simp only [after, attempt, getOrCreate_of_lost hs, hf]
          rfl
  | remove n => exact .inr (.inl ⟨n, rfl, rfl⟩)

structure Indexed (r : TypeRegistry) : Prop where
  named : ∀ {n t}, r.get? n = some t → t.name = n
  sourced : ∀ {s n}, r.sources.get? s = some n → ∃ t, r.get? n = some t ∧ t.source = some s

namespace Indexed

theorem put (h : Indexed r) (hg : r.Grants t) : Indexed (r.put t) where
  named {n u} hu := by
    rw [get?_put] at hu
    split at hu
    · rename_i hn
      obtain rfl := Option.some.inj hu
      exact hn.symm
    · exact h.named hu
  sourced {s n} hn := by
    rw [get?_sources_put] at hn
    split at hn
    · rename_i hs
      obtain rfl := Option.some.inj hn
      exact ⟨t, by rw [get?_put, if_pos rfl], hs⟩
    · rename_i hs
      obtain ⟨u, hu, hus⟩ := h.sourced hn
      have hne : n ≠ t.name := by
        rintro rfl
        exact hs ((hg u hu).symm.trans hus)
      exact ⟨u, by rw [get?_put, if_neg hne, hu], hus⟩

theorem remove (h : Indexed r) : Indexed (r.remove n) where
  named {m u} hu := by
    rw [get?_remove] at hu
    split at hu
    · cases hu
    · exact h.named hu
  sourced {s m} hm := by
    rw [get?_sources_remove] at hm
    split at hm
    · cases hm
    · rename_i hs
      obtain ⟨u, hu, hus⟩ := h.sourced hm
      have hne : m ≠ n := by
        rintro rfl
        rw [hu] at hs
        exact hs hus
      exact ⟨u, by rw [get?_remove, if_neg hne, hu], hus⟩

theorem after (h : Indexed r) (a : Action) : Indexed (r.after a) := by
  obtain ⟨t, -, hg, ha⟩ | ⟨n, -, ha⟩ | ⟨-, ha⟩ := after_cases r a <;> rw [ha]
  · exact h.put hg
  · exact h.remove
  · exact h

end Indexed

theorem indexed_replay (actions : List Action) : Indexed (replay actions) := by
  induction actions using List.reverseRecOn with
  | nil => exact ⟨nofun, nofun⟩
  | append_singleton actions a ih =>
    rw [replay_concat]
    exact ih.after a

theorem get?_sources_of_forgotten (h : Forgotten s actions) :
    (replay actions).sources.get? s = none := by
  induction h with
  | @removed actions n t ht hs =>
    rw [replay_concat]
    change ((replay actions).remove n).sources.get? s = none
    rw [get?_sources_remove, ht, Option.bind_some, if_pos hs]
  | @since actions a _ hnone ih =>
    rw [replay_concat]
    obtain ⟨t, ht, -, ha⟩ | ⟨n, -, ha⟩ | ⟨-, ha⟩ := after_cases (replay actions) a <;> rw [ha]
    · rw [get?_sources_put, if_neg (hnone t ht), ih]
    · rw [get?_sources_remove, ih, ite_self]
    · exact ih

def Holds (r : TypeRegistry) (s : String) : Prop := ∃ n t, r.get? n = some t ∧ t.source = some s

theorem Holds.of_put (h : (r.put t).Holds s) (ht : t.source ≠ some s) : r.Holds s := by
  obtain ⟨n, u, hu, hs⟩ := h
  rw [get?_put] at hu
  split at hu
  · obtain rfl := Option.some.inj hu
    exact absurd hs ht
  · exact ⟨n, u, hu, hs⟩

theorem Holds.of_remove (h : (r.remove n).Holds s) : r.Holds s := by
  obtain ⟨m, u, hu, hs⟩ := h
  rw [get?_remove] at hu
  split at hu
  · cases hu
  · exact ⟨m, u, hu, hs⟩

theorem exists_sources_of_holds (h : ¬Forgotten s actions) (hs : (replay actions).Holds s) :
    ∃ n, (replay actions).sources.get? s = some n := by
  induction actions using List.reverseRecOn with
  | nil =>
    obtain ⟨n, t, ht, -⟩ := hs
    cases ht
  | append_singleton actions a ih =>
    -- An action that registers no type of the source leaves it remembered.
    have hbefore : (∀ t, (replay actions).Registers a t → t.source ≠ some s) →
        ¬Forgotten s actions := fun hnone hf => h (.since hf hnone)
    rw [replay_concat] at hs ⊢
    obtain ⟨t, ht, -, ha⟩ | ⟨n, rfl, ha⟩ | ⟨hnone, ha⟩ := after_cases (replay actions) a <;>
      rw [ha] at hs ⊢
    · rw [get?_sources_put]
      by_cases hts : t.source = some s
      · exact ⟨t.name, if_pos hts⟩
      · rw [if_neg hts]
        exact ih (hbefore fun u hu => hu.unique ht ▸ hts) (hs.of_put hts)
    · have hother : ((replay actions).get? n).bind (·.source) ≠ some s := by
        intro hremoved
        obtain ⟨t, ht, hts⟩ := Option.bind_eq_some_iff.1 hremoved
        exact h (.removed ht hts)
      rw [get?_sources_remove, if_neg hother]
      exact ih (hbefore fun t ht => nomatch ht) hs.of_remove
    · exact ih (hbefore fun t ht => absurd ht (hnone t)) hs

theorem lookupSource_replay (h : (replay actions).Holds s) :
    (∃ t, (replay actions).lookupSource s = some t) ↔ ¬Forgotten s actions := by
  constructor
  · rintro ⟨t, ht⟩ hf
    obtain ⟨n, hn, -⟩ := lookupSource_eq_some.1 ht
    rw [get?_sources_of_forgotten hf] at hn
    cases hn
  · intro hf
    obtain ⟨n, hn⟩ := exists_sources_of_holds hf h
    obtain ⟨t, ht, -⟩ := (indexed_replay actions).sourced hn
    exact ⟨t, lookupSource_eq_some.2 ⟨n, hn, ht⟩⟩

theorem lookupSource_put_of_source (ht : t.source = some s) : (r.put t).lookupSource s = some t :=
  lookupSource_eq_some.2
    ⟨t.name, by rw [get?_sources_put, if_pos ht], by rw [get?_put, if_pos rfl]⟩

theorem getOrCreate_unchanged_iff {make : TypeEntry} :
    (∃ u, r.getOrCreate s make = .ok (r, u)) ↔ ∃ u, r.lookupSource s = some u := by
  constructor
  · rintro ⟨u, hu⟩
    cases hs : r.lookupSource s with
    | some t => exact ⟨t, rfl⟩
    | none =>
      rw [getOrCreate_of_lost hs] at hu
      obtain ⟨r', hr', hpair⟩ := exists_of_map_ok hu
      obtain rfl : r' = r := congrArg Prod.fst hpair
      have hfound : (r'.put { make with source := some s }).lookupSource s = some _ :=
        lookupSource_put_of_source rfl
      rw [← (register_ok_iff.1 hr').2, hs] at hfound
      cases hfound
  · rintro ⟨u, hu⟩
    exact ⟨u, getOrCreate_of_found hu⟩

theorem attempt_error (h : r.attempt a = .error f) :
    ∃ n holder claimant, f = .nameTaken n holder claimant := by
  cases a with
  | register t =>
    obtain ⟨held, -, -, hf⟩ := register_error h
    exact ⟨_, _, _, hf⟩
  | getOrCreate source make =>
    cases hs : r.lookupSource source with
    | some u =>
      simp only [attempt, getOrCreate_of_found hs] at h
      cases h
    | none =>
      simp only [attempt, getOrCreate_of_lost hs] at h
      cases hr : r.register { make with source := some source } with
      | ok r' =>
        rw [hr] at h
        cases h
      | error g =>
        rw [hr] at h
        obtain ⟨held, -, -, hg⟩ := register_error hr
        exact ⟨_, _, _, (Except.error.inj h).symm.trans hg⟩
  | remove n => cases h

/-- After any history a refused action has changed nothing, and what a source leads to is a type of
that source under its own name. A source that has a type leads to one, and is not given a second one
by asking for it, just when it is not forgotten. -/
theorem sources_found (actions : List Action) :
    (∀ a f, (replay actions).attempt a = .error f → (∃ n holder claimant,
      f = .nameTaken n holder claimant) ∧ replay (actions ++ [a]) = replay actions) ∧
    (∀ s t, (replay actions).lookupSource s = some t →
      (replay actions).get? t.name = some t ∧ t.source = some s) ∧
    ∀ s, (∃ t ∈ (replay actions).toList, t.source = some s) →
      ((∃ t, (replay actions).lookupSource s = some t) ↔ ¬Forgotten s actions) ∧
      ∀ make, (∃ t, (replay actions).getOrCreate s make = .ok (replay actions, t)) ↔
        ¬Forgotten s actions := by
  refine ⟨fun a f hf => ⟨attempt_error hf, ?_⟩, fun s t ht => ?_, fun s hs => ?_⟩
  · rw [replay_concat]
    simp only [after, hf]
  · obtain ⟨n, hn, ht⟩ := lookupSource_eq_some.1 ht
    obtain ⟨u, hu, hsource⟩ := (indexed_replay actions).sourced hn
    obtain rfl := Option.some.inj (ht.symm.trans hu)
    obtain rfl := (indexed_replay actions).named ht
    exact ⟨ht, hsource⟩
  · obtain ⟨t, ht, hsource⟩ := hs
    obtain ⟨n, hn⟩ := mem_toList.1 ht
    have hfound := lookupSource_replay ⟨n, t, hn, hsource⟩
    exact ⟨hfound, fun make => getOrCreate_unchanged_iff.trans hfound⟩

def postType : TypeEntry where
  name := "Post"
  kind := .interface
  source := some "App\\Entity\\Post"

def blogPostType : TypeEntry := { postType with name := "BlogPost" }

/-- The source is forgotten with the first of its types, and known again when that one returns. -/
theorem returned_post_is_found :
    let actions := [.register postType, .register blogPostType, .remove "Post", .register postType]
    (∃ t ∈ (replay actions).toList, t.source = some "App\\Entity\\Post") ∧
      (replay actions).names = ["BlogPost", "Post"] ∧ ¬Forgotten "App\\Entity\\Post" actions := by
  intro actions
  have hheld : ∃ t ∈ (replay actions).toList, t.source = some "App\\Entity\\Post" := by
    decide +kernel
  have hfound : ((replay actions).lookupSource "App\\Entity\\Post").isSome = true := by
    decide +kernel
  refine ⟨hheld, by decide +kernel, ?_⟩
  exact (((sources_found actions).2.2 _ hheld).1).1 (Option.isSome_iff_exists.1 hfound)

/-- With one of two types of a source removed, the other one is not found by its source, and asking
for the source gives it a second type. -/
theorem remaining_post_is_lost :
    let r := replay [.register postType, .register blogPostType, .remove "BlogPost"]
    (∃ t ∈ r.toList, t.source = some "App\\Entity\\Post") ∧
      (r.lookupSource "App\\Entity\\Post").isNone = true ∧
      (r.after (.getOrCreate "App\\Entity\\Post" { postType with name := "PostDraft" })).toList.map
        (fun t => (t.name, t.source)) = [("Post", some "App\\Entity\\Post"),
          ("PostDraft", some "App\\Entity\\Post")] := by
  decide +kernel

end HydraClient.TypeRegistry
