import HydraClient.Linking

/-! # Linking

Linking leaves entries as they are apart from children, and from imports of the bindings that make
offers. A run is told by a log of the offers that were taken up, each with the binding that took it.
The log says which children and imports there are afterwards, and it is as long as the number that
is returned.
-/
namespace HydraClient

theorem OrderedMap.mapValues_insert_of_eq {α β γ : Type} [DecidableEq α] {m : OrderedMap α β}
    {k : α} {v w : β} {f : β → γ} (hw : m.get? k = some w) (hf : f v = f w) :
    (m.insert k v).mapValues (fun _ => f) = m.mapValues fun _ => f := by
  apply OrderedMap.ext
  rw [insert, dif_pos (mem_keys_iff.2 ⟨w, hw⟩)]
  simp only [replace, mapValues, List.map_map]
  apply List.map_congr_left
  intro x hx
  simp only [Function.comp_apply]
  split
  · rename_i hk
    have hx : m.get? k = some x.2 := mem_entries_iff.1 (hk ▸ hx)
    obtain rfl := Option.some.inj (hw.symm.trans hx)
    rw [hf]
  · rfl

/-- A binding without the endpoints of child resources. -/
def Binding.core (b : Binding) : Binding := { b with children := .empty }

def EndpointEntry.core (e : EndpointEntry) : EndpointEntry :=
  { e with bindings := e.bindings.mapValues fun _ => Binding.core, imports := .empty }

namespace EndpointEntry

variable {e e' : EndpointEntry} {k : String} {b : Binding}

theorem file_of_core (h : e.core = e'.core) : e.file = e'.file :=
  (congrArg file h : e.core.file = e'.core.file)

theorem binding_of_core (h : e.core = e'.core) (hb : e.bindings.get? k = some b) :
    ∃ b', e'.bindings.get? k = some b' ∧ b.core = b'.core := by
  have hget : (e.bindings.get? k).map Binding.core = (e'.bindings.get? k).map Binding.core := by
    have := congrArg (fun x : EndpointEntry => x.bindings.get? k) h
    simpa only [core, OrderedMap.get?_mapValues] using this
  rw [hb] at hget
  obtain ⟨b', hb', e⟩ := Option.map_eq_some_iff.1 hget.symm
  exact ⟨b', hb', e.symm⟩

theorem binding_of_exposedKey (h : e.exposedKey = some k) :
    ∃ b, e.bindings.get? k = some b ∧ b.isExposed = true := by
  obtain ⟨⟨k', b⟩, hfind, hk⟩ := Option.map_eq_some_iff.1 h
  obtain rfl : k' = k := hk
  have hexposed : b.isExposed = true := by simpa using List.find?_some hfind
  exact ⟨b, OrderedMap.mem_entries_iff.1 (List.mem_of_find?_eq_some hfind), hexposed⟩

theorem exposedKey_core (e : EndpointEntry) : e.core.exposedKey = e.exposedKey := by
  have hcalls : ∀ b : Binding, b.core.isExposed = b.isExposed := fun _ => rfl
  simp only [core, exposedKey, OrderedMap.mapValues, List.find?_map, Function.comp_def, hcalls,
    Option.map_map]

theorem exposedKey_of_core (h : e.core = e'.core) : e.exposedKey = e'.exposedKey := by
  rw [← exposedKey_core e, h, exposedKey_core]

end EndpointEntry

namespace Linking

variable {r r' r'' : OperationRegistry} {o : Offer} {e : EndpointEntry} {b : Binding}
  {child : ChildEndpoint} {k symbol : String}

theorem core_modify (m : OrderedMap String Binding) (k : String) (key : String)
    (child : ChildEndpoint) :
    (m.modify k fun b => { b with children := b.children.insert key child }).mapValues
      (fun _ => Binding.core) = m.mapValues fun _ => Binding.core := by
  apply OrderedMap.ext
  simp only [OrderedMap.modify, OrderedMap.mapValues, List.map_map]
  refine List.map_congr_left ?_
  intro x _
  simp only [Function.comp_apply]
  split <;> rfl

def withChild (o : Offer) (symbol : String) (e : EndpointEntry) : EndpointEntry :=
  { e with
    bindings := e.bindings.modify symbol fun b =>
      { b with children := b.children.insert o.key o.child }
    imports := e.imports.add o.file o.child.symbol }

theorem core_withChild : (withChild o symbol e).core = e.core := by
  simp only [withChild, EndpointEntry.core, core_modify]

theorem exposedKey_withChild : (withChild o symbol e).exposedKey = e.exposedKey :=
  EndpointEntry.exposedKey_of_core core_withChild

/-- Nothing comes of an offer: its parent has no call, or has a child under the key. -/
def Spent (r : OperationRegistry) (o : Offer) : Prop :=
  ∀ e b symbol, r.get? o.parent = some e → e.exposedKey = some symbol →
    e.bindings.get? symbol = some b → ∃ child, b.children.get? o.key = some child

/-- An offer is spent, or its child joins the first binding with a call of its parent. -/
theorem accept_cases (r : OperationRegistry) (o : Offer) :
    (accept r o = (r, false) ∧ Spent r o) ∨
    ∃ e b symbol, r.get? o.parent = some e ∧ e.exposedKey = some symbol ∧
      e.bindings.get? symbol = some b ∧ b.children.get? o.key = none ∧
      accept r o = (r.insert o.parent (withChild o symbol e), true) := by
  unfold accept Spent
  cases htarget : r.get? o.parent with
  | none => exact .inl ⟨rfl, nofun⟩
  | some e =>
    cases hsymbol : e.exposedKey with
    | none =>
      simp only [hsymbol]
      refine .inl ⟨trivial, fun e' b symbol he' hsymbol' => ?_⟩
      obtain rfl := Option.some.inj he'
      rw [hsymbol] at hsymbol'
      cases hsymbol'
    | some symbol =>
      obtain ⟨b, hb, -⟩ := EndpointEntry.binding_of_exposedKey hsymbol
      have htaken : (e.bindings.get? symbol).any (·.children.contains o.key) = true ↔
          ∃ child, b.children.get? o.key = some child := by
        rw [hb, Option.any_some, OrderedMap.contains_iff_get?]
      by_cases hchild : ∃ child, b.children.get? o.key = some child
      · simp only [hsymbol, if_pos (htaken.2 hchild)]
        refine .inl ⟨trivial, fun e' b' symbol' he' hsymbol' hb' => ?_⟩
        obtain rfl := Option.some.inj he'
        obtain rfl := Option.some.inj (hsymbol.symm.trans hsymbol')
        obtain rfl := Option.some.inj (hb.symm.trans hb')
        exact hchild
      · simp only [hsymbol, if_neg (mt htaken.1 hchild)]
        have hfree : b.children.get? o.key = none :=
          Option.eq_none_iff_forall_ne_some.2 fun child hget => hchild ⟨child, hget⟩
        exact .inr ⟨e, b, symbol, rfl, hsymbol, hb, hfree, rfl⟩

structure Slot where
  className : String
  symbol : String
  key : String
  deriving DecidableEq, Repr

def childAt (r : OperationRegistry) (s : Slot) : Option ChildEndpoint :=
  ((r.get? s.className).bind (·.bindings.get? s.symbol)).bind (·.children.get? s.key)

def ImportAt (r : OperationRegistry) (className file name : String) : Prop :=
  ∃ e, r.get? className = some e ∧ e.imports.Takes file name

theorem childAt_eq (he : r.get? k = some e) (hb : e.bindings.get? symbol = some b) (key : String) :
    childAt r ⟨k, symbol, key⟩ = b.children.get? key := by
  simp only [childAt, he, hb, Option.bind_some]

theorem childAt_withChild (he : r.get? o.parent = some e) (hb : e.bindings.get? symbol = some b)
    (s : Slot) : childAt (r.insert o.parent (withChild o symbol e)) s =
      if s = ⟨o.parent, symbol, o.key⟩ then some o.child else childAt r s := by
  obtain ⟨className, symbol', key⟩ := s
  unfold childAt
  dsimp only
  rw [OrderedMap.get?_insert]
  by_cases hclass : className = o.parent
  · rw [if_pos hclass, hclass, he, Option.bind_some, Option.bind_some, withChild,
      OrderedMap.get?_modify]
    by_cases hsymbol : symbol' = symbol
    · rw [if_pos hsymbol, hsymbol, hb, Option.map_some, Option.bind_some, Option.bind_some,
        OrderedMap.get?_insert]
      by_cases hkey : key = o.key <;> simp [hkey]
    · rw [if_neg hsymbol, if_neg]
      simp [hsymbol]
  · rw [if_neg hclass, if_neg]
    simp [hclass]

theorem importAt_withChild (he : r.get? o.parent = some e) {k f n : String} :
    ImportAt (r.insert o.parent (withChild o symbol e)) k f n ↔
      ImportAt r k f n ∨ o.parent = k ∧ o.file = f ∧ o.child.symbol = n := by
  unfold ImportAt
  rw [OrderedMap.get?_insert]
  by_cases hk : k = o.parent
  · subst hk
    simp [he, withChild, eq_comm, or_comm]
  · simp [hk, Ne.symm hk]

structure Adoption where
  offer : Offer
  symbol : String
  deriving DecidableEq, Repr

def Adoption.slot (a : Adoption) : Slot := ⟨a.offer.parent, a.symbol, a.offer.key⟩

variable {log log' : List Adoption}

/-- The children and imports of a registry are those of another one and those of a log, in which
every place was free and none comes up twice. -/
structure Adopted (r : OperationRegistry) (log : List Adoption) (r' : OperationRegistry) :
    Prop where
  cores : (r'.mapValues fun _ => EndpointEntry.core) = r.mapValues fun _ => EndpointEntry.core
  others : ∀ k, (∀ a ∈ log, a.offer.parent ≠ k) → r'.get? k = r.get? k
  children : ∀ s child, childAt r' s = some child ↔
    childAt r s = some child ∨ ∃ a ∈ log, a.slot = s ∧ a.offer.child = child
  imports : ∀ k f n, ImportAt r' k f n ↔ ImportAt r k f n ∨
    ∃ a ∈ log, a.offer.parent = k ∧ a.offer.file = f ∧ a.offer.child.symbol = n
  free : ∀ a ∈ log, childAt r a.slot = none
  distinct : (log.map Adoption.slot).Nodup

namespace Adopted

theorem refl (r : OperationRegistry) : Adopted r [] r where
  cores := rfl
  others _ _ := rfl
  children s child := by simp
  imports k f n := by simp
  free _ h := by cases h
  distinct := .nil

theorem kept (h : Adopted r log r') (hs : childAt r s = some child) : childAt r' s = some child :=
  (h.children s child).2 (.inl hs)

theorem free_before (h : Adopted r log r') (hs : childAt r' s = none) : childAt r s = none := by
  cases hr : childAt r s with
  | none => rfl
  | some child =>
    rw [h.kept hr] at hs
    cases hs

theorem trans (h : Adopted r log r') (h' : Adopted r' log' r'') :
    Adopted r (log ++ log') r'' where
  cores := h'.cores.trans h.cores
  others k hk := by
    rw [h'.others k fun a ha => hk a (List.mem_append_right _ ha),
      h.others k fun a ha => hk a (List.mem_append_left _ ha)]
  children s child := by
    simp only [h'.children, h.children, List.mem_append, or_and_right, exists_or, or_assoc]
  imports k f n := by
    simp only [h'.imports, h.imports, List.mem_append, or_and_right, exists_or, or_assoc]
  free a ha := by
    rcases List.mem_append.1 ha with ha | ha
    · exact h.free a ha
    · exact h.free_before (h'.free a ha)
  distinct := by
    rw [List.map_append, List.nodup_append]
    refine ⟨h.distinct, h'.distinct, ?_⟩
    -- A place of the first log is taken when the second one begins.
    rintro _ hs _ hs' rfl
    obtain ⟨a, ha, has⟩ := List.mem_map.1 hs
    obtain ⟨a', ha', has'⟩ := List.mem_map.1 hs'
    have htaken : childAt r' a.slot = some a.offer.child :=
      (h.children _ _).2 (.inr ⟨a, ha, rfl, rfl⟩)
    have hfree : childAt r' a.slot = none := has.trans has'.symm ▸ h'.free a' ha'
    rw [htaken] at hfree
    cases hfree

theorem core_get? (h : Adopted r log r') (k : String) :
    (r'.get? k).map EndpointEntry.core = (r.get? k).map EndpointEntry.core := by
  simpa only [OrderedMap.get?_mapValues] using congrArg (·.get? k) h.cores

theorem entry (h : Adopted r log r') {e' : EndpointEntry} (he' : r'.get? k = some e') :
    ∃ e, r.get? k = some e ∧ e.core = e'.core := by
  have hcore := h.core_get? k
  rw [he'] at hcore
  exact Option.map_eq_some_iff.1 hcore.symm

end Adopted

theorem adopted_withChild (he : r.get? o.parent = some e) (hb : e.bindings.get? symbol = some b)
    (hfree : b.children.get? o.key = none) :
    Adopted r [⟨o, symbol⟩] (r.insert o.parent (withChild o symbol e)) where
  cores := OrderedMap.mapValues_insert_of_eq he core_withChild
  others k hk := by
    rw [OrderedMap.get?_insert, if_neg]
    rintro rfl
    exact hk ⟨o, symbol⟩ (by simp) rfl
  children s child := by
    rw [childAt_withChild he hb]
    simp only [List.mem_singleton, exists_eq_left, Adoption.slot]
    by_cases hs : s = ⟨o.parent, symbol, o.key⟩
    · simp [hs, childAt_eq he hb, hfree]
    · simp [hs, Ne.symm hs]
  imports k f n := by simp [importAt_withChild he]
  free a ha := by
    obtain rfl := List.mem_singleton.1 ha
    exact (childAt_eq he hb o.key).trans hfree
  distinct := by simp

theorem adopted_accept (r : OperationRegistry) (o : Offer) :
    ∃ log, Adopted r log (accept r o).1 ∧ (∀ a ∈ log, a.offer = o) ∧
      log.length = if (accept r o).2 then 1 else 0 := by
  rcases accept_cases r o with ⟨hr, -⟩ | ⟨e, b, symbol, he, -, hb, hfree, hr⟩ <;> rw [hr]
  · exact ⟨[], .refl r, by simp, rfl⟩
  · exact ⟨[⟨o, symbol⟩], adopted_withChild he hb hfree, by simp, rfl⟩

theorem exists_log (r : OperationRegistry) : ∃ log, Adopted r log (link r).1 ∧
    (∀ a ∈ log, a.offer ∈ offers r) ∧ log.length = (link r).2 := by
  refine List.foldlRecOn (offers r) _
    (motive := fun p : OperationRegistry × Nat => ∃ log, Adopted r log p.1 ∧
      (∀ a ∈ log, a.offer ∈ offers r) ∧ log.length = p.2) ⟨[], .refl r, by simp, rfl⟩ ?_
  rintro ⟨r', n⟩ ⟨log, hlog, hoffers, hlength⟩ o ho
  obtain ⟨new, hnew, hoffer, hcount⟩ := adopted_accept r' o
  refine ⟨log ++ new, hlog.trans hnew, ?_, ?_⟩
  · intro a ha
    rcases List.mem_append.1 ha with ha | ha
    · exact hoffers a ha
    · exact hoffer a ha ▸ ho
  · rw [List.length_append, hlength, hcount]
    dsimp only
    split <;> rfl

def ChildOf (e : EndpointEntry) (child : ChildEndpoint) : Prop :=
  ∃ b ∈ e.bindings.values, child ∈ b.children.values

theorem childOf_iff (he : r.get? k = some e) :
    ChildOf e child ↔ ∃ symbol key, childAt r ⟨k, symbol, key⟩ = some child := by
  constructor
  · rintro ⟨b, hb, hchild⟩
    obtain ⟨symbol, hb⟩ := OrderedMap.mem_values_iff.1 hb
    obtain ⟨key, hchild⟩ := OrderedMap.mem_values_iff.1 hchild
    exact ⟨symbol, key, (childAt_eq he hb key).trans hchild⟩
  · rintro ⟨symbol, key, hchild⟩
    rw [childAt, he, Option.bind_some] at hchild
    obtain ⟨b, hb, hchild⟩ := Option.bind_eq_some_iff.1 hchild
    exact ⟨b, OrderedMap.mem_values_iff.2 ⟨symbol, hb⟩, OrderedMap.mem_values_iff.2 ⟨key, hchild⟩⟩

structure Linked (offered : List Offer) (r r' : OperationRegistry) : Prop where
  cores : ∀ k, (r'.get? k).map EndpointEntry.core = (r.get? k).map EndpointEntry.core
  imports : ∀ {k e}, r'.get? k = some e → ∀ {f n}, e.imports.Takes f n →
    (∃ e₀, r.get? k = some e₀ ∧ e₀.imports.Takes f n) ∨
      ∃ o ∈ offered, f = o.file ∧ n = o.child.symbol
  kept : ∀ {k e₀}, r.get? k = some e₀ → ∃ e, r'.get? k = some e ∧
    ∀ {f n}, e₀.imports.Takes f n → e.imports.Takes f n
  children : ∀ {k e}, r'.get? k = some e → ∀ {child}, ChildOf e child →
    (∃ e₀, r.get? k = some e₀ ∧ ChildOf e₀ child) ∨
      ∃ o ∈ offered, o.child = child ∧ e.imports.Takes o.file child.symbol

variable {offered : List Offer}

theorem Linked.entry (h : Linked offered r r') (he : r'.get? k = some e) :
    ∃ e₀, r.get? k = some e₀ ∧ e₀.core = e.core := by
  have := h.cores k
  rw [he] at this
  exact Option.map_eq_some_iff.1 this.symm

theorem Adopted.linked (h : Adopted r log r') (hoffered : ∀ a ∈ log, a.offer ∈ offered) :
    Linked offered r r' where
  cores := h.core_get?
  imports he f n hi := by
    rcases (h.imports _ f n).1 ⟨_, he, hi⟩ with hi | ⟨a, ha, -, rfl, rfl⟩
    · exact .inl hi
    · exact .inr ⟨a.offer, hoffered a ha, rfl, rfl⟩
  kept {k e₀} he₀ := by
    have hcore := h.core_get? k
    rw [he₀] at hcore
    obtain ⟨e, he, -⟩ := Option.map_eq_some_iff.1 hcore
    refine ⟨e, he, fun hi => ?_⟩
    obtain ⟨e', he', hi'⟩ := (h.imports k _ _).2 (.inl ⟨e₀, he₀, hi⟩)
    obtain rfl := Option.some.inj (he.symm.trans he')
    exact hi'
  children {k e} he child hc := by
    obtain ⟨symbol, key, hchild⟩ := (childOf_iff he).1 hc
    rcases (h.children _ child).1 hchild with hchild | ⟨a, ha, hslot, rfl⟩
    · obtain ⟨e₀, he₀, -⟩ := h.entry he
      exact .inl ⟨e₀, he₀, (childOf_iff he₀).2 ⟨symbol, key, hchild⟩⟩
    · have hparent : a.offer.parent = k := congrArg Slot.className hslot
      obtain ⟨e', he', hi⟩ := (h.imports k _ _).2 (.inr ⟨a, ha, hparent, rfl, rfl⟩)
      obtain rfl := Option.some.inj (he.symm.trans he')
      exact .inr ⟨a.offer, hoffered a ha, rfl, hi⟩

theorem linked_link (r : OperationRegistry) : Linked (offers r) r (link r).1 := by
  obtain ⟨log, hlog, hoffers, -⟩ := exists_log r
  exact hlog.linked hoffers

theorem import_of_link {f n : String} (he : (link r).1.get? k = some e)
    (hi : e.imports.Takes f n) : (∃ e₀, r.get? k = some e₀ ∧ e₀.imports.Takes f n) ∨
      ∃ o ∈ offers r, f = o.file ∧ n = o.child.symbol ∧ ChildOf e o.child := by
  obtain ⟨log, hlog, hoffers, -⟩ := exists_log r
  rcases (hlog.imports k f n).1 ⟨e, he, hi⟩ with hi | ⟨a, ha, rfl, rfl, rfl⟩
  · exact .inl hi
  · refine .inr ⟨a.offer, hoffers a ha, rfl, rfl, (childOf_iff he).2 ⟨a.symbol, a.offer.key, ?_⟩⟩
    exact (hlog.children a.slot _).2 (.inr ⟨a, ha, rfl, rfl⟩)

theorem offered_by {o : Offer} (ho : o ∈ offers r) :
    ∃ e ∈ r.values, ∃ b ∈ e.bindings.values, b.isExposed = true ∧ o.file = e.file ∧
      o.child.source = e.source ∧ o.child.symbol = b.symbol := by
  obtain ⟨e, he, ho⟩ := List.mem_flatMap.1 ho
  obtain ⟨b, hb, ho⟩ := List.mem_flatMap.1 ho
  refine ⟨e, he, b, hb, ?_⟩
  unfold offersOf at ho
  split at ho
  · cases ho
  · rename_i hexposed
    obtain ⟨u, -, hu⟩ := List.mem_filterMap.1 ho
    split at hu
    · split at hu
      · cases hu
      · obtain rfl := Option.some.inj hu
        exact ⟨by simpa using hexposed, rfl, rfl, rfl⟩
    · cases hu

end Linking

end HydraClient
