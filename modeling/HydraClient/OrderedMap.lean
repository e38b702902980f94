/-! # Maps in insertion order

A key keeps the position of its first insertion and the value of its last. No key occurs twice.
-/
namespace HydraClient

structure OrderedMap (α β : Type) where
  entries : List (α × β) := []
  distinct : (entries.map Prod.fst).Nodup := by simp

namespace OrderedMap

variable {α β γ : Type}

theorem ext {m n : OrderedMap α β} (h : m.entries = n.entries) : m = n := by
  cases m; cases n; cases h; rfl

instance [DecidableEq α] [DecidableEq β] : DecidableEq (OrderedMap α β) := fun m n =>
  if h : m.entries = n.entries then isTrue (ext h) else isFalse fun e => h (e ▸ rfl)

instance [Repr α] [Repr β] : Repr (OrderedMap α β) := ⟨fun m n => reprPrec m.entries n⟩

def empty : OrderedMap α β := {}

instance : Inhabited (OrderedMap α β) := ⟨empty⟩

def keys (m : OrderedMap α β) : List α := m.entries.map Prod.fst

def values (m : OrderedMap α β) : List β := m.entries.map Prod.snd

def size (m : OrderedMap α β) : Nat := m.entries.length

def isEmpty (m : OrderedMap α β) : Bool := m.entries.isEmpty

def mapValues (f : α → β → γ) (m : OrderedMap α β) : OrderedMap α γ where
  entries := m.entries.map fun e => (e.1, f e.1 e.2)
  distinct := by simpa [List.map_map, Function.comp_def] using m.distinct

@[simp] theorem keys_mapValues (f : α → β → γ) (m : OrderedMap α β) :
    (m.mapValues f).keys = m.keys := by
  simp [keys, mapValues, Function.comp_def]

variable [DecidableEq α]

def get? (m : OrderedMap α β) (k : α) : Option β :=
  (m.entries.find? (·.1 == k)).map Prod.snd

def contains (m : OrderedMap α β) (k : α) : Bool := m.entries.any (·.1 == k)

theorem contains_iff {m : OrderedMap α β} {k : α} : m.contains k = true ↔ k ∈ m.keys := by
  simp [contains, keys]

def replace (m : OrderedMap α β) (k : α) (v : β) : OrderedMap α β :=
  m.mapValues fun k' v' => if k' = k then v else v'

def push (m : OrderedMap α β) (k : α) (v : β) (h : k ∉ m.keys) : OrderedMap α β where
  entries := m.entries ++ [(k, v)]
  distinct := by
    rw [List.map_append, List.nodup_append]
    refine ⟨m.distinct, by simp, fun a ha b hb => ?_⟩
    simp only [List.map_cons, List.map_nil, List.mem_singleton] at hb
    subst hb
    exact fun e => h (e ▸ ha)

def insert (m : OrderedMap α β) (k : α) (v : β) : OrderedMap α β :=
  if h : k ∈ m.keys then m.replace k v else m.push k v h

def erase (m : OrderedMap α β) (k : α) : OrderedMap α β where
  entries := m.entries.filter (·.1 != k)
  distinct := m.distinct.sublist (List.filter_sublist.map _)

def modify (m : OrderedMap α β) (k : α) (f : β → β) : OrderedMap α β :=
  m.mapValues fun k' v => if k' = k then f v else v

/-- The map of a list of pairs, in which a later pair overrides an earlier one. -/
def ofList (entries : List (α × β)) : OrderedMap α β :=
  entries.foldl (fun m e => m.insert e.1 e.2) empty

theorem keys_insert (m : OrderedMap α β) (k : α) (v : β) :
    (m.insert k v).keys = if k ∈ m.keys then m.keys else m.keys ++ [k] := by
  unfold insert
  split
  · simp [replace]
  · simp [push, keys]

@[simp] theorem keys_modify (m : OrderedMap α β) (k : α) (f : β → β) :
    (m.modify k f).keys = m.keys := by
  simp [modify]

theorem keys_erase (m : OrderedMap α β) (k : α) :
    (m.erase k).keys = m.keys.filter (· != k) := by
  simp [keys, erase, List.filter_map, Function.comp_def]

theorem get?_eq_none_iff {m : OrderedMap α β} {k : α} : m.get? k = none ↔ k ∉ m.keys := by
  simp only [get?, Option.map_eq_none_iff, List.find?_eq_none, keys, List.mem_map]
  constructor
  · rintro h ⟨e, he, rfl⟩
    simpa using h e he
  · intro h e he hk
    exact h ⟨e, he, by simpa using hk⟩

private theorem find?_key_map (f : α → β → γ) (l : List (α × β)) (k : α) :
    ((l.map fun e => (e.1, f e.1 e.2)).find? (·.1 == k)).map Prod.snd =
      ((l.find? (·.1 == k)).map Prod.snd).map (f k) := by
  induction l with
  | nil => rfl
  | cons e t ih =>
    by_cases h : e.1 = k
    · subst h; simp
    · simpa [List.find?_cons, h, -List.find?_map, -Option.map_map] using ih

theorem get?_mapValues (f : α → β → γ) (m : OrderedMap α β) (k : α) :
    (m.mapValues f).get? k = (m.get? k).map (f k) :=
  find?_key_map f m.entries k

theorem get?_modify (m : OrderedMap α β) (k k' : α) (f : β → β) :
    (m.modify k f).get? k' = if k' = k then (m.get? k').map f else m.get? k' := by
  rw [modify, get?_mapValues]
  split <;> simp_all

theorem get?_insert (m : OrderedMap α β) (k k' : α) (v : β) :
    (m.insert k v).get? k' = if k' = k then some v else m.get? k' := by
  unfold insert
  split
  · rename_i h
    rw [replace, get?_mapValues]
    by_cases e : k' = k
    · subst e
      cases hk : m.get? k' with
      | none => exact absurd h (get?_eq_none_iff.1 hk)
      | some w => simp
    · simp [e]
  · rename_i h
    simp only [get?, push, List.find?_append]
    by_cases e : k' = k
    · subst e
      have := get?_eq_none_iff.2 h
      simp only [get?, Option.map_eq_none_iff] at this
      simp [this]
    · have : ¬k = k' := fun h => e h.symm
      simp [e, this]

theorem get?_erase (m : OrderedMap α β) (k k' : α) :
    (m.erase k).get? k' = if k' = k then none else m.get? k' := by
  simp only [get?, erase, List.find?_filter]
  split
  · rename_i h
    subst h
    rw [Option.map_eq_none_iff, List.find?_eq_none]
    intro e _
    by_cases he : e.1 = k' <;> simp [he]
  · rename_i h
    congr 1
    refine congrArg (m.entries.find? ·) (funext fun e => ?_)
    by_cases he : e.1 = k' <;> simp [he, h]

theorem erase_eq_self {m : OrderedMap α β} {k : α} (h : k ∉ m.keys) : m.erase k = m := by
  apply ext
  refine List.filter_eq_self.2 fun e he => ?_
  have hne : e.1 ≠ k := fun heq => h (heq ▸ List.mem_map_of_mem he)
  simpa using hne

theorem modify_eq_self {m : OrderedMap α β} {k : α} {f : β → β} (h : k ∉ m.keys) :
    m.modify k f = m := by
  apply ext
  refine (List.map_congr_left fun e he => ?_).trans (List.map_id _)
  have hne : e.1 ≠ k := fun heq => h (heq ▸ List.mem_map_of_mem he)
  dsimp only
  rw [if_neg hne]
  rfl

theorem erase_comm (m : OrderedMap α β) (k k' : α) :
    (m.erase k).erase k' = (m.erase k').erase k := by
  apply ext
  simp only [erase, List.filter_filter, Bool.and_comm]

theorem erase_modify (m : OrderedMap α β) (k k' : α) (f : β → β) :
    (m.modify k f).erase k' = (m.erase k').modify k f := by
  apply ext
  simp only [erase, modify, mapValues, List.filter_map]
  rfl

theorem erase_insert_self (m : OrderedMap α β) (k : α) (v : β) :
    (m.insert k v).erase k = m.erase k := by
  apply ext
  unfold insert
  split
  · simp only [erase, replace, mapValues, List.filter_map]
    refine (List.map_congr_left fun e he => ?_).trans (List.map_id _)
    have hne : e.1 ≠ k := by simpa using (List.mem_filter.1 he).2
    rw [if_neg hne]
    rfl
  · simp [erase, push]

theorem erase_insert_of_ne (m : OrderedMap α β) {k k' : α} (v : β) (h : k ≠ k') :
    (m.insert k v).erase k' = (m.erase k').insert k v := by
  apply ext
  have hmem : k ∈ (m.erase k').keys ↔ k ∈ m.keys := by
    rw [keys_erase, List.mem_filter]
    exact and_iff_left (by simpa using h)
  by_cases hk : k ∈ m.keys
  · rw [insert, insert, dif_pos hk, dif_pos (hmem.2 hk)]
    simp only [erase, replace, mapValues, List.filter_map]
    rfl
  · rw [insert, insert, dif_neg hk, dif_neg fun h => hk (hmem.1 h)]
    simp [erase, push, h]

@[simp] theorem get?_empty (k : α) : (empty : OrderedMap α β).get? k = none := rfl

theorem mem_entries_iff {m : OrderedMap α β} {k : α} {v : β} :
    (k, v) ∈ m.entries ↔ m.get? k = some v := by
  obtain ⟨l, h⟩ := m
  induction l with
  | nil => simp [get?]
  | cons e t ih =>
    rw [List.map_cons, List.nodup_cons] at h
    have rest := ih h.2
    by_cases he : e.1 = k
    · subst he
      have : (e.1, v) ∉ t := fun hv => h.1 (List.mem_map.2 ⟨_, hv, rfl⟩)
      simp [get?, this, Prod.ext_iff, eq_comm]
    · simp only [get?] at rest ⊢
      rw [List.find?_cons_of_neg (by simpa using he), ← rest, List.mem_cons, or_iff_right]
      exact fun h => he (by rw [← h])

theorem mem_values_iff {m : OrderedMap α β} {v : β} : v ∈ m.values ↔ ∃ k, m.get? k = some v := by
  simp only [values, List.mem_map, Prod.exists, ← mem_entries_iff]
  exact ⟨fun ⟨k, _, h, e⟩ => ⟨k, e ▸ h⟩, fun ⟨k, h⟩ => ⟨k, v, h, rfl⟩⟩

theorem mem_keys_iff {m : OrderedMap α β} {k : α} : k ∈ m.keys ↔ ∃ v, m.get? k = some v := by
  simp only [keys, List.mem_map, Prod.exists, ← mem_entries_iff]
  exact ⟨fun ⟨_, v, h, e⟩ => ⟨v, e ▸ h⟩, fun ⟨v, h⟩ => ⟨k, v, h, rfl⟩⟩

theorem contains_iff_get? {m : OrderedMap α β} {k : α} :
    m.contains k = true ↔ ∃ v, m.get? k = some v := contains_iff.trans mem_keys_iff

theorem flatMap_entries_of_key {m : OrderedMap α β} {k : α} {f : β → List γ} :
    m.entries.flatMap (fun e => if k = e.1 then f e.2 else []) = (m.get? k).toList.flatMap f := by
  obtain ⟨l, h⟩ := m
  unfold get?
  dsimp only
  induction l with
  | nil => rfl
  | cons e rest ih =>
    rw [List.map_cons, List.nodup_cons] at h
    rw [List.flatMap_cons]
    by_cases hk : k = e.1
    · have hnone : rest.flatMap (fun e => if k = e.1 then f e.2 else []) = [] := by
        refine List.flatMap_eq_nil_iff.2 fun e' he' => if_neg fun hk' => h.1 ?_
        exact List.mem_map.2 ⟨e', he', hk'.symm.trans hk⟩
      rw [if_pos hk, hnone, List.find?_cons_of_pos (by simp [hk])]
      simp
    · rw [if_neg hk, List.nil_append, ih h.2,
        List.find?_cons_of_neg (by simpa using fun heq => hk heq.symm)]

theorem mem_values_insert {m : OrderedMap α β} {k : α} {v w : β} (h : w ∈ (m.insert k v).values) :
    w = v ∨ w ∈ m.values := by
  obtain ⟨k', h⟩ := mem_values_iff.1 h
  rw [get?_insert] at h
  split at h
  · exact .inl (Option.some.inj h).symm
  · exact .inr (mem_values_iff.2 ⟨k', h⟩)

theorem flatMap_values_erase {m : OrderedMap α β} {k : α} {f : β → List γ}
    (h : ∀ v, m.get? k = some v → f v = []) :
    (m.erase k).values.flatMap f = m.values.flatMap f := by
  have hnone : ∀ e ∈ m.entries, e.1 = k → f e.2 = [] := fun e he hk =>
    h e.2 (mem_entries_iff.1 (hk ▸ he))
  unfold values erase
  dsimp only
  generalize m.entries = l at hnone ⊢
  induction l with
  | nil => rfl
  | cons e rest ih =>
    have hrest := ih fun e' he' => hnone e' (List.mem_cons_of_mem _ he')
    by_cases hk : e.1 = k
    · rw [List.filter_cons_of_neg (by simpa using hk), hrest, List.map_cons, List.flatMap_cons,
        hnone e List.mem_cons_self hk, List.nil_append]
    · rw [List.filter_cons_of_pos (by simpa using hk), List.map_cons, List.map_cons,
        List.flatMap_cons, List.flatMap_cons, hrest]

private theorem get?_foldl_insert {l : List (α × β)} {m : OrderedMap α β} {k : α} :
    (l.foldl (fun m e => m.insert e.1 e.2) m).get? k =
      ((l.reverse.find? (·.1 == k)).map Prod.snd).or (m.get? k) := by
  induction l generalizing m with
  | nil => rfl
  | cons e t ih =>
    rw [List.foldl_cons, ih, get?_insert, List.reverse_cons, List.find?_append]
    cases t.reverse.find? (·.1 == k) with
    | some x => simp
    | none =>
      by_cases h : e.1 = k
      · simp [h]
      · simp [h, Ne.symm h]

theorem get?_ofList (l : List (α × β)) (k : α) :
    (ofList l).get? k = (l.reverse.find? (·.1 == k)).map Prod.snd := by
  rw [ofList, get?_foldl_insert, get?_empty, Option.or_none]

theorem mem_of_get?_ofList {l : List (α × β)} {k : α} {v : β} (h : (ofList l).get? k = some v) :
    (k, v) ∈ l := by
  rw [get?_ofList, Option.map_eq_some_iff] at h
  obtain ⟨e, he, rfl⟩ := h
  have hk : e.1 = k := by simpa using List.find?_some he
  exact hk ▸ List.mem_reverse.1 (List.mem_of_find?_eq_some he)

theorem get?_ofList_of_nodup {l : List (α × β)} (hl : (l.map Prod.fst).Nodup) {k : α} {v : β} :
    (ofList l).get? k = some v ↔ (k, v) ∈ l := by
  refine ⟨mem_of_get?_ofList, fun h => ?_⟩
  cases hk : (ofList l).get? k with
  | some w =>
    have : (⟨l, hl⟩ : OrderedMap α β).get? k = some v := mem_entries_iff.1 h
    rw [← this]
    exact (mem_entries_iff.1 (mem_of_get?_ofList hk)).symm
  | none =>
    rw [get?_ofList, Option.map_eq_none_iff, List.find?_eq_none] at hk
    exact absurd (beq_self_eq_true k) (hk (k, v) (List.mem_reverse.2 h))

end OrderedMap
end HydraClient
