import HydraClient.Proofs.Faults

/-! # What filters refuse

A filter goes through its parameters in order, and what it refuses does not depend on what was
contributed before: the first parameter that cannot be taken breaks the filter off. A parameter over
dates or ranges that names no operator is passed over before the property it refers to is looked up.
-/
namespace HydraClient

open Metadata (FilterParameter)

section Refusal

variable {ε σ α β γ : Type}

def failure? : Except ε α → Option ε
  | .error e => some e
  | .ok _ => none

theorem failure?_eq_some_iff {r : Except ε α} {e : ε} : failure? r = some e ↔ r = .error e := by
  cases r <;> simp [failure?]

theorem failure?_eq_none_iff {r : Except ε α} : failure? r = none ↔ ∃ a, r = .ok a := by
  cases r <;> simp [failure?]

theorem findSome?_cons_or (f : α → Option β) (a : α) (l : List α) :
    (a :: l).findSome? f = (f a).or (l.findSome? f) := by
  rw [List.findSome?_cons]
  cases f a <;> rfl

/-- From every state the work breaks off with one failure, or from none. -/
def Refuses (x : ExceptT ε (StateM σ) α) (refusal : Option ε) : Prop :=
  ∀ s, failure? (outcome x s).1 = refusal

namespace Refuses

variable {x : ExceptT ε (StateM σ) α} {f : α → ExceptT ε (StateM σ) β} {r r' : Option ε}
  {l : List γ} {refusal? : γ → Option ε}

theorem pure (a : α) : Refuses (Pure.pure a : ExceptT ε (StateM σ) α) none := fun _ => rfl

theorem throw (e : ε) : Refuses (MonadExcept.throw e : ExceptT ε (StateM σ) α) (some e) :=
  fun _ => rfl

theorem throw_bind (e : ε) :
    Refuses ((MonadExcept.throw e : ExceptT ε (StateM σ) α) >>= f) (some e) :=
  fun _ => rfl

theorem modify (g : σ → σ) : Refuses (modifyThe σ g : ExceptT ε (StateM σ) PUnit) none :=
  fun _ => rfl

theorem lift (y : Except ε α) : Refuses (liftM y : ExceptT ε (StateM σ) α) (failure? y) :=
  fun _ => by rw [outcome_lift]

theorem bind (hx : Refuses x r) (hf : ∀ a, Refuses (f a) r') : Refuses (x >>= f) (r.or r') := by
  intro s
  have hleft := hx s
  rw [outcome_bind]
  rcases hout : outcome x s with ⟨e | a, m⟩ <;> rw [hout] at hleft <;> rw [← hleft]
  · rfl
  · exact hf a m

theorem bind_free (hx : Refuses x r) (hf : ∀ a, Refuses (f a) none) : Refuses (x >>= f) r := by
  rw [← Option.or_none (o := r)]
  exact hx.bind hf

theorem forM {f : γ → ExceptT ε (StateM σ) PUnit} (h : ∀ a, Refuses (f a) (refusal? a)) :
    Refuses (l.forM f) (l.findSome? refusal?) := by
  induction l with
  | nil => exact .pure PUnit.unit
  | cons a rest ih =>
    rw [findSome?_cons_or]
    exact (h a).bind fun _ => ih

theorem forM_free {f : γ → ExceptT ε (StateM σ) PUnit} (h : ∀ a, Refuses (f a) none) :
    Refuses (l.forM f) none := by
  have hnone : l.findSome? (fun _ => (none : Option ε)) = none :=
    List.findSome?_eq_none_iff.2 fun _ _ => rfl
  exact hnone ▸ forM h

theorem mapM {f : γ → ExceptT ε (StateM σ) β} (h : ∀ a, Refuses (f a) (refusal? a)) :
    Refuses (l.mapM f) (l.findSome? refusal?) := by
  induction l with
  | nil =>
    rw [List.mapM_nil]
    exact .pure []
  | cons a rest ih =>
    rw [findSome?_cons_or, List.mapM_cons]
    exact (h a).bind fun b => ih.bind_free fun bs => .pure (b :: bs)

theorem foldlM {f : β → γ → ExceptT ε (StateM σ) β} (h : ∀ b a, Refuses (f b a) (refusal? a))
    (b : β) : Refuses (l.foldlM f b) (l.findSome? refusal?) := by
  induction l generalizing b with
  | nil =>
    rw [List.foldlM_nil]
    exact .pure b
  | cons a rest ih =>
    rw [findSome?_cons_or, List.foldlM_cons]
    exact (h b a).bind fun b' => ih b'

end Refuses
end Refusal

def FilterKey.start (key : String) (p : FilterParameter) : String :=
  String.ofList ((FilterKey.property key p).toList.takeWhile (· != '.'))

/-- Whether a filter looks up the property of a parameter. The operators of dates and ranges are
what makes their parameters count. -/
def Metadata.FilterKind.looksUp (kind : Metadata.FilterKind) (key : String) : Bool :=
  match kind with
  | .date => (FilterKey.operator? key).isSome
  | .range => (FilterKey.operator? key).isSome
  | _ => true

namespace Filter

variable (types : TypeRegistry) (resource : TypeEntry) (filter : Metadata.Filter)

def unexposed (key : String) (p : FilterParameter) : Failure :=
  .propertyUnexposed (FilterKey.start key p) resource.name resource.source
    (FilterKey.property key p) filter.id

def lookupRefusal? (key : String) (p : FilterParameter) : Option Failure :=
  if (resource.properties.get? (FilterKey.start key p)).isSome then none
  else some (unexposed resource filter key p)

def valuesRefusal? (key : String) (p : FilterParameter) : Option Failure :=
  match resource.properties.get? (FilterKey.start key p) with
  | some prop =>
    if (prop.enumName.filter (· != "")).isSome then none else failure? (valueUnion p.schema)
  | none => none

/-- What a filter fails with over a parameter. -/
def refusal? (e : String × FilterParameter) : Option Failure :=
  if filter.kind.looksUp e.1 then
    (lookupRefusal? resource filter e.1 e.2).or
      (if filter.kind = .backedEnum then valuesRefusal? resource e.1 e.2 else none)
  else none

variable {types resource filter} {key : String} {p : FilterParameter}

theorem localProperty_of_exposed {prop : Property}
    (h : resource.properties.get? (FilterKey.start key p) = some prop) :
    localProperty resource filter (FilterKey.property key p) = pure prop := by
  unfold localProperty
  dsimp only
  split
  · rename_i held hheld
    obtain rfl := Option.some.inj (h.symm.trans hheld)
    rfl
  · rename_i hnone
    exact absurd (h.symm.trans hnone) nofun

theorem localProperty_of_absent
    (h : resource.properties.get? (FilterKey.start key p) = none) :
    localProperty resource filter (FilterKey.property key p) =
      throw (unexposed resource filter key p) := by
  unfold localProperty
  dsimp only
  split
  · rename_i held hheld
    exact absurd (h.symm.trans hheld) nofun
  · rfl

theorem refuses_localProperty :
    Refuses (localProperty resource filter (FilterKey.property key p))
      (lookupRefusal? resource filter key p) := by
  unfold lookupRefusal?
  cases hprop : resource.properties.get? (FilterKey.start key p) with
  | some prop => exact localProperty_of_exposed hprop ▸ .pure prop
  | none => exact localProperty_of_absent hprop ▸ .throw _

theorem refuses_exposedName :
    Refuses (exposedName resource filter key p) (lookupRefusal? resource filter key p) :=
  refuses_localProperty.bind_free fun _ => .pure _

theorem refuses_contribute (name expression : String) (required collection : Bool) :
    Refuses (Deriving.contribute name expression required collection) none :=
  .modify _

theorem refuses_depend (file name : String) : Refuses (Deriving.depend file name) none := .modify _

theorem refuses_dependOnType (name : String) : Refuses (Deriving.dependOnType types name) none := by
  unfold Deriving.dependOnType
  split
  · split
    · exact refuses_depend _ _
    · exact .pure ()
  · exact .pure ()

theorem refuses_searchExpression (prop : Property) :
    Refuses (searchExpression types prop p) none := by
  unfold searchExpression
  split
  · split
    · dsimp only
      split
      · exact (refuses_dependOnType _).bind_free fun _ =>
          (refuses_depend _ _).bind_free fun _ => .pure _
      · exact (refuses_depend _ _).bind_free fun _ => .pure _
    · exact .pure _
  · exact .pure _

theorem refuses_searchField :
    Refuses (searchField types resource filter key p) (lookupRefusal? resource filter key p) :=
  refuses_localProperty.bind_free fun prop =>
    (Refuses.forM_free fun _ => .forM_free fun _ => refuses_depend _ _).bind_free fun _ =>
      (refuses_searchExpression prop).bind_free fun _ => refuses_contribute _ _ _ _

theorem refuses_namedProperties :
    Refuses (namedProperties resource filter)
      (filter.parameters.entries.findSome? fun e => lookupRefusal? resource filter e.1 e.2) :=
  (Refuses.mapM fun _ => refuses_exposedName).bind_free fun _ => .pure _

theorem refuses_operators :
    Refuses (operators resource filter)
      (filter.parameters.entries.findSome? fun e =>
        if (FilterKey.operator? e.1).isSome then lookupRefusal? resource filter e.1 e.2
        else none) := by
  refine Refuses.foldlM (fun ops e => ?_) _
  obtain ⟨key, p⟩ := e
  dsimp only
  cases FilterKey.operator? key with
  | none => exact .pure ops
  | some op => exact refuses_exposedName.bind_free fun _ => .pure _

theorem refuses_backedEnumField :
    Refuses (backedEnumField types resource filter key p)
      ((lookupRefusal? resource filter key p).or (valuesRefusal? resource key p)) := by
  unfold backedEnumField lookupRefusal? valuesRefusal?
  cases hprop : resource.properties.get? (FilterKey.start key p) with
  | none =>
    rw [localProperty_of_absent hprop]
    exact .throw_bind _
  | some prop =>
    rw [localProperty_of_exposed hprop, pure_bind]
    dsimp only
    cases prop.enumName.filter (· != "") with
    | some e => exact (refuses_dependOnType _).bind_free fun _ => refuses_contribute _ _ _ _
    | none => exact (Refuses.lift _).bind_free fun _ => refuses_contribute _ _ _ _

theorem refusal?_eq_lookup (h : filter.kind ∉ [.date, .range, .backedEnum]) :
    refusal? resource filter = fun e => lookupRefusal? resource filter e.1 e.2 := by
  funext e
  unfold refusal? Metadata.FilterKind.looksUp
  cases hkind : filter.kind <;> simp [hkind] at h ⊢

theorem refusal?_of_operators (h : filter.kind ∈ [.date, .range]) :
    refusal? resource filter = fun e =>
      if (FilterKey.operator? e.1).isSome then lookupRefusal? resource filter e.1 e.2
      else none := by
  funext e
  unfold refusal? Metadata.FilterKind.looksUp
  cases hkind : filter.kind <;> simp [hkind] at h ⊢

theorem refusal?_of_backedEnum (h : filter.kind = .backedEnum) :
    refusal? resource filter = fun e =>
      (lookupRefusal? resource filter e.1 e.2).or (valuesRefusal? resource e.1 e.2) := by
  funext e
  simp [refusal?, Metadata.FilterKind.looksUp, h]

/-- A filter fails over the first parameter that it refuses, and not otherwise. -/
theorem refuses_derive :
    Refuses (derive types resource filter)
      (filter.parameters.entries.findSome? (refusal? resource filter)) := by
  unfold derive
  cases hkind : filter.kind with
  | search =>
    rw [refusal?_eq_lookup (by simp [hkind])]
    exact .forM fun _ => refuses_searchField
  | order =>
    rw [refusal?_eq_lookup (by simp [hkind])]
    refine refuses_namedProperties.bind_free ?_
    rintro ⟨_ | name, properties⟩
    · exact .pure _
    · exact (refuses_depend _ _).bind_free fun _ => refuses_contribute _ _ _ _
  | date =>
    rw [refusal?_of_operators (by simp [hkind])]
    refine refuses_operators.bind_free fun ops => ?_
    dsimp only
    split
    · exact (refuses_depend _ _).bind_free fun _ => .forM_free fun _ => refuses_contribute _ _ _ _
    · exact .forM_free fun _ => refuses_contribute _ _ _ _
  | boolean =>
    rw [refusal?_eq_lookup (by simp [hkind])]
    exact .forM fun _ => refuses_exposedName.bind_free fun _ => refuses_contribute _ _ _ _
  | existence =>
    rw [refusal?_eq_lookup (by simp [hkind])]
    refine refuses_namedProperties.bind_free ?_
    rintro ⟨_ | name, properties⟩
    · exact .pure _
    · exact refuses_contribute _ _ _ _
  | range =>
    rw [refusal?_of_operators (by simp [hkind])]
    exact refuses_operators.bind_free fun ops => .forM_free fun _ => refuses_contribute _ _ _ _
  | backedEnum =>
    rw [refusal?_of_backedEnum hkind]
    exact .forM fun _ => refuses_backedEnumField

theorem isFault_of_valueUnion {schema : OrderedMap String Json} {e : Failure}
    (h : valueUnion schema = .error e) : e.IsFault := by
  unfold valueUnion at h
  rcases bind_eq_error h with h | ⟨values, -, h⟩
  · unfold enumerated at h
    split at h <;> try cases h
    split at h <;> cases h
    rfl
  · rcases bind_eq_error h with h | ⟨literals, -, h⟩
    · obtain ⟨v, -, hv⟩ := exists_of_mapM_error h
      obtain ⟨reason, -, rfl⟩ := Script.written_error_iff.1 hv
      rfl
    · cases h

def Unexposed (resource : TypeEntry) (e : String × FilterParameter) : Prop :=
  FilterKey.start e.1 e.2 ∉ resource.properties.keys

instance (e : String × FilterParameter) : Decidable (Unexposed resource e) :=
  inferInstanceAs (Decidable (_ ∉ _))

theorem lookupRefusal?_of_unexposed (h : Unexposed resource (key, p)) :
    lookupRefusal? resource filter key p = some (unexposed resource filter key p) := by
  have hnone : resource.properties.get? (FilterKey.start key p) = none :=
    OrderedMap.get?_eq_none_iff.2 h
  simp [lookupRefusal?, hnone]

theorem lookupRefusal?_of_exposed (h : ¬Unexposed resource (key, p)) :
    lookupRefusal? resource filter key p = none := by
  obtain ⟨prop, hprop⟩ := OrderedMap.mem_keys_iff.1 (not_not.1 h)
  simp [lookupRefusal?, hprop]

theorem isFault_of_valuesRefusal? {e : Failure} (h : valuesRefusal? resource key p = some e) :
    e.IsFault := by
  unfold valuesRefusal? at h
  split at h
  · split at h
    · cases h
    · exact isFault_of_valueUnion (failure?_eq_some_iff.1 h)
  · cases h

theorem isOf_unexposed : (unexposed resource filter key p).IsOf .unexposedFilterField :=
  ⟨_, rfl, rfl⟩

theorem refusal?_of_unexposed (hlooks : filter.kind.looksUp key = true)
    (h : Unexposed resource (key, p)) :
    refusal? resource filter (key, p) = some (unexposed resource filter key p) := by
  rw [refusal?, if_pos hlooks, lookupRefusal?_of_unexposed h]
  rfl

/-- A filter refuses an unexposed property, or the values of an exposed one. -/
theorem refusal?_cases {a : String × FilterParameter} {e : Failure}
    (h : refusal? resource filter a = some e) :
    (filter.kind.looksUp a.1 = true ∧ Unexposed resource a ∧
      e = unexposed resource filter a.1 a.2) ∨
    (filter.kind = .backedEnum ∧ valuesRefusal? resource a.1 a.2 = some e) := by
  unfold refusal? at h
  split at h
  · rename_i hlooks
    by_cases hu : Unexposed resource a
    · rw [lookupRefusal?_of_unexposed hu] at h
      exact .inl ⟨hlooks, hu, (Option.some.inj h).symm⟩
    · rw [lookupRefusal?_of_exposed hu, Option.none_or] at h
      split at h
      · rename_i hkind
        exact .inr ⟨hkind, h⟩
      · cases h
  · cases h

theorem valuesRefusal?_eq_none {a : String × FilterParameter} (hkind : filter.kind = .backedEnum)
    (h : refusal? resource filter a = none) : valuesRefusal? resource a.1 a.2 = none := by
  have hlooks : filter.kind.looksUp a.1 = true := by rw [hkind]; rfl
  rw [refusal?, if_pos hlooks, if_pos hkind, Option.or_eq_none_iff] at h
  exact h.2

/-- From a state, the filter breaks off with the report of a property that is not exposed. -/
def Reports (types : TypeRegistry) (resource : TypeEntry) (filter : Metadata.Filter)
    (d : Derivation) : Prop :=
  ∃ e, (outcome (derive types resource filter) d).1 = .error e ∧ e.IsOf .unexposedFilterField

/-- A filter reports an unexposed property exactly over a parameter that it looks up and reaches.
Filters of four kinds look every parameter up and reach it. -/
theorem unexposed_reported_iff (types : TypeRegistry) (resource : TypeEntry)
    (filter : Metadata.Filter) (d : Derivation) :
    (Reports types resource filter d ↔
      ∃ before key p after, filter.parameters.entries = before ++ (key, p) :: after ∧
        filter.kind.looksUp key = true ∧ Unexposed resource (key, p) ∧
        (filter.kind = .backedEnum → ∀ e ∈ before, valuesRefusal? resource e.1 e.2 = none)) ∧
    (filter.kind ∉ [.date, .range, .backedEnum] →
      (Reports types resource filter d ↔
        ∃ e ∈ filter.parameters.entries, Unexposed resource e)) := by
  have hreported : Reports types resource filter d ↔
      ∃ before key p after, filter.parameters.entries = before ++ (key, p) :: after ∧
        filter.kind.looksUp key = true ∧ Unexposed resource (key, p) ∧
        (filter.kind = .backedEnum → ∀ e ∈ before, valuesRefusal? resource e.1 e.2 = none) := by
    simp only [Reports, ← failure?_eq_some_iff, refuses_derive d]
    constructor
    · rintro ⟨e, he, hreport⟩
      obtain ⟨before, ⟨key, p⟩, after, hsplit, hrefused, hbefore⟩ := List.findSome?_eq_some_iff.1 he
      refine ⟨before, key, p, after, hsplit, ?_⟩
      rcases refusal?_cases hrefused with ⟨hlooks, hu, -⟩ | ⟨-, hvalues⟩
      · exact ⟨hlooks, hu, fun hkind a ha => valuesRefusal?_eq_none hkind (hbefore a ha)⟩
      · obtain ⟨diagnostic, hdiagnostic, -⟩ := hreport
        have hnone : e.diagnostic? = none := isFault_of_valuesRefusal? hvalues
        rw [hnone] at hdiagnostic
        cases hdiagnostic
    · rintro ⟨before, key, p, after, hsplit, hlooks, hu, hbefore⟩
      rw [hsplit, List.findSome?_append, findSome?_cons_or, refusal?_of_unexposed hlooks hu]
      -- What is refused before is reported as well, unless it is for its values.
      cases hearlier : before.findSome? (refusal? resource filter) with
      | none => exact ⟨_, rfl, isOf_unexposed⟩
      | some e =>
        obtain ⟨a, ha, hrefused⟩ := List.exists_of_findSome?_eq_some hearlier
        rcases refusal?_cases hrefused with ⟨-, -, rfl⟩ | ⟨hkind, hvalues⟩
        · exact ⟨_, rfl, isOf_unexposed⟩
        · rw [hbefore hkind a ha] at hvalues
          cases hvalues
  refine ⟨hreported, fun hkind => hreported.trans ?_⟩
  have hlooks : ∀ key, filter.kind.looksUp key = true := by
    intro key
    unfold Metadata.FilterKind.looksUp
    split <;> simp_all
  constructor
  · rintro ⟨before, key, p, after, hsplit, -, hu, -⟩
    exact ⟨(key, p), by simp [hsplit], hu⟩
  · rintro ⟨⟨key, p⟩, hmem, hu⟩
    obtain ⟨before, after, hsplit⟩ := List.append_of_mem hmem
    exact ⟨before, key, p, after, hsplit, hlooks key, hu, fun h => absurd (by simp [h]) hkind⟩

/-- A filter over dates reports the parameter with an operator, and one over truth values reports
the parameter that stands behind an exposed one. -/
theorem ghost_reported :
    let post : TypeEntry := {
      name := "Post"
      kind := .interface
      properties := .ofList [("title", { name := "title" })] }
    let ghost : FilterParameter := { property := some "ghost.id" }
    let dates : Metadata.Filter := {
      id := "post.dates", kind := .date
      parameters := { entries := [("ghost", ghost), ("ghost[before]", ghost)] } }
    let flags : Metadata.Filter := {
      id := "post.flags", kind := .boolean
      parameters := { entries := [("title", {}), ("ghost", ghost)] } }
    Reports {} post dates {} ∧ flags.kind ∉ [.date, .range, .backedEnum] ∧
      Reports {} post flags {} := by
  intro post ghost dates flags
  refine ⟨(unexposed_reported_iff {} post dates {}).1.2
    ⟨[("ghost", ghost)], "ghost[before]", ghost, [], rfl, by decide +kernel, by decide +kernel,
      nofun⟩, by decide, ?_⟩
  exact ((unexposed_reported_iff {} post flags {}).2 (by decide)).2
    ⟨("ghost", ghost), by simp [flags], by decide +kernel⟩

/-- Over dates, a parameter that names no operator is passed over, whatever it refers to. -/
theorem ghost_without_operator_unreported :
    let post : TypeEntry := {
      name := "Post"
      kind := .interface
      properties := .ofList [("title", { name := "title" })] }
    let dates : Metadata.Filter := {
      id := "post.dates", kind := .date
      parameters := { entries := [("ghost", { property := some "ghost" })] } }
    (∃ e ∈ dates.parameters.entries, Unexposed post e) ∧
      ¬Reports {} post dates {} := by
  intro post dates
  refine ⟨⟨("ghost", { property := some "ghost" }), by simp [dates], by decide +kernel⟩, ?_⟩
  have hresult : (outcome (derive {} post dates) {}).1 = .ok () := by rfl
  rintro ⟨e, he, -⟩
  rw [hresult] at he
  cases he

end Filter
end HydraClient
