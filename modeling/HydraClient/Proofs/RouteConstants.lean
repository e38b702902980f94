import HydraClient.Proofs.BrokenRuns
import HydraClient.Proofs.Contributions
import HydraClient.Proofs.Numbering

/-! # The constants of routes

Every route that is not reserved asks for a constant unless the hook drops it, and so does every
family. The requests are granted one after the other, each under a name that is new.
-/
namespace HydraClient

open Metadata (Config Route)

section Writable

variable {v : Json} {t : String} {members : List (String × Json)} {m : String × Json}

theorem unwritable?_obj : (Json.obj members).unwritable? = none ↔
    ∀ m ∈ members, m.2.unwritable? = none := by
  constructor
  · intro h m hm
    induction members with
    | nil => cases hm
    | cons m' rest ih =>
      rw [Json.unwritable?, Json.unwritableMember?, Option.orElse_eq_none] at h
      rcases List.mem_cons.1 hm with rfl | hm
      · exact h.1
      · exact ih h.2 hm
  · intro h
    rw [Json.unwritable?, Option.eq_none_iff_forall_ne_some]
    intro reason hreason
    obtain ⟨m, hm, hreason⟩ := Json.exists_of_unwritableMember hreason
    cases (h m hm).symm.trans hreason

end Writable

namespace Routes

structure Constant where
  name : String
  type : String
  literal : String

def Constant.text (c : Constant) : String :=
  "export const " ++ c.name ++ ": " ++ c.type ++ " = " ++ c.literal ++ ";"

/-- What a constant should be called, and what it stands for if that can be written. -/
structure Request where
  wanted : String
  type : String
  literal : Except Failure String

def grant (used : List String) : List Request → Except Failure (List Constant)
  | [] => .ok []
  | q :: rest => do
    let literal ← q.literal
    let more ← grant (uniqueName used q.wanted :: used) rest
    pure (⟨uniqueName used q.wanted, q.type, literal⟩ :: more)

section Grant

variable {used : List String} {qs : List Request} {cs : List Constant} {e : Failure}

structure Request.Answered (q : Request) (c : Constant) : Prop where
  type : c.type = q.type
  literal : q.literal = .ok c.literal

/-- Granted constants have the names that are assigned in turn, and stand for what was asked. -/
structure Granted (used : List String) (qs : List Request) (cs : List Constant) : Prop where
  names : cs.map (·.name) = assign used (qs.map (·.wanted))
  answers : List.Forall₂ Request.Answered qs cs

theorem granted_of_grant (h : grant used qs = .ok cs) : Granted used qs cs := by
  induction qs generalizing used cs with
  | nil =>
    obtain rfl := Except.ok.inj h
    exact ⟨rfl, .nil⟩
  | cons q rest ih =>
    obtain ⟨literal, hliteral, h⟩ := exists_of_bind_ok h
    obtain ⟨more, hmore, h⟩ := exists_of_bind_ok h
    obtain rfl := Except.ok.inj h
    obtain ⟨hnames, hanswers⟩ := ih hmore
    exact ⟨by simp [assign, hnames], .cons ⟨rfl, hliteral⟩ hanswers⟩

theorem grant_append {rs : List Request} : grant used (qs ++ rs) = (do
    let cs ← grant used qs
    let ds ← grant ((cs.map (·.name)).reverse ++ used) rs
    pure (cs ++ ds)) := by
  induction qs generalizing used with
  | nil =>
    change grant used rs = _
    cases h : grant used rs <;> simp [grant, bind, Except.bind, pure, Except.pure, h]
  | cons q rest ih =>
    rw [List.cons_append, grant, grant, ih]
    cases q.literal with
    | error e => rfl
    | ok t =>
      dsimp only [bind, Except.bind]
      cases grant (uniqueName used q.wanted :: used) rest with
      | error e => rfl
      | ok cs =>
        simp only [pure, Except.pure, List.map_cons, List.reverse_cons, List.append_assoc,
          List.singleton_append]
        cases grant _ rs <;> rfl

theorem error_of_grant_append {rs : List Request} (h : grant used (qs ++ rs) = .error e) :
    grant used qs = .error e ∨
      (∃ cs, grant used qs = .ok cs) ∧ ∃ used', grant used' rs = .error e := by
  rw [grant_append] at h
  rcases bind_eq_error h with h | ⟨cs, hcs, h⟩
  · exact .inl h
  · rcases bind_eq_error h with h | ⟨ds, -, h⟩
    · exact .inr ⟨⟨cs, hcs⟩, _, h⟩
    · cases h

theorem exists_of_grant_error (h : grant used qs = .error e) : ∃ q ∈ qs, q.literal = .error e := by
  induction qs generalizing used with
  | nil => cases h
  | cons q rest ih =>
    rcases bind_eq_error h with h | ⟨literal, -, h⟩
    · exact ⟨q, List.mem_cons_self, h⟩
    · rcases bind_eq_error h with h | ⟨more, -, h⟩
      · obtain ⟨q', hq', h⟩ := ih h
        exact ⟨q', List.mem_cons_of_mem _ hq', h⟩
      · cases h

theorem literal_of_grant {q : Request} (h : grant used qs = .ok cs) (hq : q ∈ qs) :
    ∃ t, q.literal = .ok t := by
  have hanswers := (granted_of_grant h).answers
  obtain ⟨i, hi, rfl⟩ := List.mem_iff_getElem.1 hq
  exact ⟨_, (hanswers.get hi (hanswers.length_eq ▸ hi)).literal⟩

theorem exists_grant (h : ∀ q ∈ qs, ∃ t, q.literal = .ok t) : ∃ cs, grant used qs = .ok cs := by
  cases hgrant : grant used qs with
  | ok cs => exact ⟨cs, rfl⟩
  | error e =>
    obtain ⟨q, hq, he⟩ := exists_of_grant_error hgrant
    obtain ⟨t, ht⟩ := h q hq
    cases he.symm.trans ht

namespace Granted

variable (h : Granted used qs cs)
include h

theorem length_eq : cs.length = qs.length := h.answers.length_eq.symm

theorem nodup : (cs.map (·.name)).Nodup := by
  rw [h.names]
  exact nodup_assign

/-- What each constant is called is chosen with the names before it taken. -/
theorem exists_request {i : Nat} {c : Constant} (hc : cs[i]? = some c) :
    ∃ q, qs[i]? = some q ∧ q.Answered c ∧
      Chosen ((cs.take i).map (·.name) ++ used) q.wanted c.name := by
  have hname : (assign used (qs.map (·.wanted)))[i]? = some c.name := by
    rw [← h.names, List.getElem?_map, hc, Option.map_some]
  obtain ⟨wanted, hwanted, hchosen⟩ := chosen_assign hname
  rw [List.getElem?_map] at hwanted
  obtain ⟨q, hq, rfl⟩ := Option.map_eq_some_iff.1 hwanted
  obtain ⟨hi, rfl⟩ := List.getElem?_eq_some_iff.1 hq
  obtain ⟨hj, rfl⟩ := List.getElem?_eq_some_iff.1 hc
  rw [← h.names, ← List.map_take] at hchosen
  exact ⟨_, hq, h.answers.get hi hj, hchosen⟩

end Granted
end Grant

abbrev Visit := Route × Event

def Visit.family? (v : Visit) : Option (String × String) := Routes.family? v.1

def enroll (families : OrderedMap String Family) (v : Visit) : OrderedMap String Family :=
  match v.family? with
  | some (base, locale) =>
    families.insert base (((families.get? base).getD .empty).insert locale v.2.settings)
  | none => families

def familiesOf (vs : List Visit) : OrderedMap String Family := vs.foldl enroll .empty

def bases (vs : List Visit) : List String :=
  (vs.filterMap fun v => v.family?.map Prod.fst).eraseDups

def Visit.member? (base : String) (v : Visit) : Option (String × List (String × Json)) :=
  v.family?.bind fun f => if f.1 = base then some (f.2, v.2.settings) else none

/-- The settings of the members of a family by their locales, in order. -/
def membersOf (base : String) (vs : List Visit) : List (String × List (String × Json)) :=
  vs.filterMap (Visit.member? base)

section Families

variable {vs : List Visit} {v : Visit} {base : String} {f : Family}

theorem familiesOf_concat : familiesOf (vs ++ [v]) = enroll (familiesOf vs) v := by
  simp [familiesOf]

theorem membersOf_concat :
    membersOf base (vs ++ [v]) = membersOf base vs ++ (v.member? base).toList := by
  rw [membersOf, List.filterMap_append, membersOf]
  cases h : v.member? base <;> simp [h]

theorem bases_concat : bases (vs ++ [v]) = match v.family? with
    | some f => if f.1 ∈ bases vs then bases vs else bases vs ++ [f.1]
    | none => bases vs := by
  unfold bases
  rw [List.filterMap_append]
  cases hv : v.family? with
  | none => simp [hv]
  | some f =>
    have hlast : [v].filterMap (fun v => v.family?.map Prod.fst) = [f.1] := by simp [hv]
    dsimp only
    rw [hlast, eraseDups_concat]
    by_cases hf : f.1 ∈ vs.filterMap fun v => v.family?.map Prod.fst
    · rw [if_pos hf, if_pos (List.mem_eraseDups.2 hf)]
    · rw [if_neg hf, if_neg (mt List.mem_eraseDups.1 hf)]

theorem keys_familiesOf : (familiesOf vs).keys = bases vs := by
  induction vs using List.reverseRecOn with
  | nil => rfl
  | append_singleton init v ih =>
    rw [familiesOf_concat, bases_concat]
    unfold enroll
    cases v.family? with
    | none => exact ih
    | some f =>
      dsimp only
      rw [OrderedMap.keys_insert, ih]

theorem get?_familiesOf :
    ((familiesOf vs).get? base).getD .empty = .ofList (membersOf base vs) := by
  induction vs using List.reverseRecOn with
  | nil => rfl
  | append_singleton init v ih =>
    rw [familiesOf_concat, membersOf_concat]
    unfold enroll Visit.member?
    cases hv : v.family? with
    | none => simpa using ih
    | some f =>
      obtain ⟨b, locale⟩ := f
      dsimp only
      rw [OrderedMap.get?_insert]
      by_cases hb : base = b
      · subst hb
        rw [if_pos rfl, Option.getD_some, ih]
        simp [OrderedMap.ofList]
      · rw [if_neg hb, ih]
        simp [Ne.symm hb]

theorem mem_bases_iff : base ∈ bases vs ↔ membersOf base vs ≠ [] := by
  rw [bases, List.mem_eraseDups, List.mem_filterMap, ne_eq, membersOf, List.filterMap_eq_nil_iff]
  push Not
  refine exists_congr fun v => and_congr_right fun _ => ?_
  unfold Visit.member?
  cases v.family? <;> simp

end Families

namespace Composition

def add (c : Composition) (q : Request) : Except Failure Composition := do
  let literal ← q.literal
  let name := uniqueName c.used q.wanted
  pure { c with
    used := name :: c.used
    lines := c.lines ++ [Constant.text ⟨name, q.type, literal⟩] }

def extend (c : Composition) (cs : List Constant) : Composition :=
  { c with used := (cs.map (·.name)).reverse ++ c.used, lines := c.lines ++ cs.map Constant.text }

variable {c : Composition} {v : Visit}

theorem foldlM_add (qs : List Request) : qs.foldlM add c = (grant c.used qs).map c.extend := by
  induction qs generalizing c with
  | nil => simp [grant, Except.map, pure, Except.pure, extend]
  | cons q rest ih =>
    rw [List.foldlM_cons, add, grant]
    cases q.literal with
    | error e => rfl
    | ok t =>
      have hrest := ih (c := { c with
        used := uniqueName c.used q.wanted :: c.used
        lines := c.lines ++ [Constant.text ⟨uniqueName c.used q.wanted, q.type, t⟩] })
      refine hrest.trans ?_
      dsimp only [bind, Except.bind]
      cases grant (uniqueName c.used q.wanted :: c.used) rest with
      | error e => rfl
      | ok cs => simp [Except.map, pure, Except.pure, extend]

end Composition

def routeRequest (v : Visit) : Request where
  wanted := v.2.constant
  type := "RouteInterface"
  literal := Script.literal (.obj v.2.settings)

def familyRequest (defaultLocale : String) (e : String × Family) : Request where
  wanted := Text.constantName e.1
  type := "LocaleAwareRouteInterface"
  literal := do Script.literal (.obj (← Composition.familySettings defaultLocale e.1 e.2))

def accepted (vs : List Visit) : List Visit := vs.filter (·.2.generate)

/-- What is asked for, by the routes and then by the families. -/
def requests (config : Config) (vs : List Visit) : List Request :=
  (accepted vs).map routeRequest ++
    (familiesOf (accepted vs)).entries.map (familyRequest config.defaultLocale)

def composeVisits (config : Config) (vs : List Visit) : Except Failure (List String) := do
  let c ← vs.foldlM (fun c v => c.addRoute (fun _ => v.2) v.1) ({} : Composition)
  let c ← c.families.entries.foldlM (fun c e => c.addFamily config.defaultLocale e.1 e.2) c
  pure c.lines

/-- The visits to the routes that are not reserved. The hook need not treat equal routes alike: it
is given by what it does at each visit. -/
def visits (config : Config) (hooks : Nat → Hook) (routes : List Route) : List Visit :=
  (routes.filter fun r => !isReserved config r.name).mapIdx fun i r =>
    (r, hooks i ⟨r, Text.constantName r.name, settings r, true⟩)

section Composing

variable {c : Composition} {config : Config} {vs : List Visit} {routes : List Route}

theorem addRoute_visit (v : Visit) : c.addRoute (fun _ => v.2) v.1 =
    if v.2.generate then Composition.add { c with families := enroll c.families v } (routeRequest v)
    else .ok c := by
  unfold Composition.addRoute enroll Visit.family?
  dsimp only
  cases v.2.generate with
  | false => rfl
  | true => cases family? v.1 <;> rfl

theorem accepted_cons (v : Visit) :
    accepted (v :: vs) = if v.2.generate then v :: accepted vs else accepted vs := List.filter_cons

theorem addFamily_eq {defaultLocale base : String} {f : Family} :
    c.addFamily defaultLocale base f = c.add (familyRequest defaultLocale (base, f)) := by
  unfold Composition.addFamily Composition.add familyRequest Composition.addConstant
  dsimp only
  cases Composition.familySettings defaultLocale base f with
  | error e => rfl
  | ok settings => rfl

theorem foldlM_addFamily {defaultLocale : String} {entries : List (String × Family)} :
    entries.foldlM (fun c e => c.addFamily defaultLocale e.1 e.2) c =
      (grant c.used (entries.map (familyRequest defaultLocale))).map c.extend := by
  rw [← Composition.foldlM_add, List.foldlM_map]
  simp only [addFamily_eq]

theorem foldlM_addRoute :
    vs.foldlM (fun c v => c.addRoute (fun _ => v.2) v.1) c =
      (grant c.used ((accepted vs).map routeRequest)).map fun cs =>
        { c.extend cs with families := (accepted vs).foldl enroll c.families } := by
  induction vs generalizing c with
  | nil => simp [accepted, grant, Except.map, pure, Except.pure, Composition.extend]
  | cons v rest ih =>
    rw [List.foldlM_cons, addRoute_visit]
    by_cases hv : v.2.generate = true
    · rw [if_pos hv, accepted_cons, if_pos hv, List.map_cons, grant, Composition.add]
      cases (routeRequest v).literal with
      | error e => rfl
      | ok t =>
        refine ih.trans ?_
        dsimp only [bind, Except.bind]
        cases grant (uniqueName c.used (routeRequest v).wanted :: c.used)
            ((accepted rest).map routeRequest) with
        | error e => rfl
        | ok cs => simp [Except.map, pure, Except.pure, Composition.extend]
    · rw [if_neg hv, accepted_cons, if_neg hv]
      exact ih

/-- What is composed are the constants that are granted to all requests. -/
theorem composeVisits_eq : composeVisits config vs =
    (grant [] (requests config vs)).map (·.map Constant.text) := by
  have hfamilies : (accepted vs).foldl enroll .empty = familiesOf (accepted vs) := rfl
  unfold composeVisits requests
  rw [foldlM_addRoute, grant_append]
  dsimp only
  rw [hfamilies]
  cases grant [] ((accepted vs).map routeRequest) with
  | error e => rfl
  | ok cs =>
    dsimp only [bind, Except.bind, Except.map]
    rw [foldlM_addFamily]
    simp only [Composition.extend, List.append_nil, List.nil_append]
    cases grant (cs.map (·.name)).reverse
        ((familiesOf (accepted vs)).entries.map (familyRequest config.defaultLocale)) with
    | error e => rfl
    | ok ds => simp [Except.map, pure, Except.pure, Composition.extend]

end Composing

section Failing

variable {config : Config} {vs : List Visit} {base defaultLocale : String} {f : Family}
  {e : Failure} {value : List (String × Json)}

theorem exists_visit (hf : (familiesOf vs).get? base = some f) {s : List (String × Json)}
    (hs : s ∈ f.values) : ∃ v ∈ vs, v.family?.isSome = true ∧ v.2.settings = s := by
  have hmembers : f = .ofList (membersOf base vs) := by
    rw [← get?_familiesOf, hf, Option.getD_some]
  obtain ⟨locale, hlocale⟩ := OrderedMap.mem_values_iff.1 hs
  rw [hmembers] at hlocale
  obtain ⟨v, hv, hmember⟩ := List.mem_filterMap.1 (OrderedMap.mem_of_get?_ofList hlocale)
  obtain ⟨b, hb, hmember⟩ := Option.bind_eq_some_iff.1 hmember
  split at hmember
  · obtain ⟨-, rfl⟩ := Prod.mk.inj (Option.some.inj hmember)
    exact ⟨v, hv, by rw [hb]; rfl, rfl⟩
  · cases hmember

theorem pathOf_of_familySettings (h : Composition.familySettings defaultLocale base f = .error e) :
    ∃ s ∈ f.values, Composition.pathOf s = .error e := by
  unfold Composition.familySettings at h
  rcases bind_eq_error h with h | ⟨_, -, h⟩
  · obtain ⟨m, hm, h⟩ := exists_of_mapM_error h
    rcases bind_eq_error h with h | ⟨_, -, h⟩
    · exact ⟨m.2, List.mem_map_of_mem hm, h⟩
    · cases h
  · cases h

theorem writable_of_familySettings (hf : ∀ s ∈ f.values, (Json.obj s).unwritable? = none)
    (h : Composition.familySettings defaultLocale base f = .ok value) :
    (Json.obj value).unwritable? = none := by
  have hfirst : ∀ m ∈ f.values.head?.getD [], m.2.unwritable? = none := by
    cases hhead : f.values.head? with
    | none => simp
    | some s => exact unwritable?_obj.1 (hf s (List.mem_of_mem_head? hhead))
  obtain ⟨paths, hpaths, h⟩ := exists_of_bind_ok h
  obtain rfl := Except.ok.inj h
  refine unwritable?_obj.2 fun m hm => ?_
  rcases Json.mem_put hm with rfl | hm
  · refine unwritable?_obj.2 fun m hm => ?_
    obtain ⟨e, he, hm⟩ := mem_of_mapM_ok hpaths hm
    obtain ⟨v, hv, hm⟩ := exists_of_bind_ok hm
    obtain rfl := Except.ok.inj hm
    unfold Composition.pathOf at hv
    split at hv
    · rename_i w hw
      obtain rfl := Except.ok.inj hv
      obtain ⟨p, hp, rfl⟩ := Option.map_eq_some_iff.1 hw
      exact unwritable?_obj.1 (hf e.2 (List.mem_map_of_mem he)) p (List.mem_of_find?_eq_some hp)
    · cases hv
  · rcases Json.mem_put hm with rfl | hm
    · rfl
    · split at hm
      · rename_i s hs
        split at hm
        · exact hfirst m hm
        · exact unwritable?_obj.1 (hf s (OrderedMap.mem_values_iff.2 ⟨_, hs⟩)) m hm
      · exact hfirst m hm

/-- Routes are not composed if the settings of one of them cannot be written, or if the settings of
a member of a family have lost their path. -/
theorem exists_of_composeVisits_error (h : composeVisits config vs = .error e) :
    ∃ v ∈ accepted vs, (routeRequest v).literal = .error e ∨
      v.family?.isSome = true ∧ Composition.pathOf v.2.settings = .error e := by
  rw [composeVisits_eq] at h
  have hrefused : grant [] (requests config vs) = .error e := by
    cases hgrant : grant [] (requests config vs) with
    | ok cs =>
      rw [hgrant] at h
      cases h
    | error e' =>
      rw [hgrant] at h
      exact congrArg Except.error (Except.error.inj h)
  rcases error_of_grant_append hrefused with hroute | ⟨⟨cs, hcs⟩, used, hfamily⟩
  · obtain ⟨q, hq, hliteral⟩ := exists_of_grant_error hroute
    obtain ⟨v, hv, rfl⟩ := List.mem_map.1 hq
    exact ⟨v, hv, .inl hliteral⟩
  · -- Families come last. What their members are has been written by then, so only a path can lack.
    obtain ⟨q, hq, hliteral⟩ := exists_of_grant_error hfamily
    obtain ⟨⟨base, f⟩, hf, rfl⟩ := List.mem_map.1 hq
    have hget := OrderedMap.mem_entries_iff.1 hf
    have hwritable : ∀ s ∈ f.values, (Json.obj s).unwritable? = none := by
      intro s hs
      obtain ⟨v, hv, -, rfl⟩ := exists_visit hget hs
      obtain ⟨t, ht⟩ := literal_of_grant hcs (List.mem_map_of_mem (f := routeRequest) hv)
      exact (Script.written_ok_iff.1 ht).1
    rcases bind_eq_error hliteral with hpath | ⟨value, hvalue, hliteral⟩
    · obtain ⟨s, hs, hpath⟩ := pathOf_of_familySettings hpath
      obtain ⟨v, hv, hmember, rfl⟩ := exists_visit hget hs
      exact ⟨v, hv, .inr ⟨hmember, hpath⟩⟩
    · have hnone := writable_of_familySettings hwritable hvalue
      obtain ⟨reason, hreason, -⟩ := Script.written_error_iff.1 hliteral
      exact absurd (hnone.symm.trans hreason) nofun

end Failing

section Hooked

variable {cat : Catalog} {hook : Hook} {s s' : Draft} {n : Nat}

theorem composeVisits_hook (config : Config) (hook : Hook) (routes : List Route) :
    composeVisits config (visits config (fun _ => hook) routes) = compose config hook routes := by
  have hvisits : visits config (fun _ => hook) routes =
      (routes.filter fun r => !isReserved config r.name).map fun r =>
        (r, hook ⟨r, Text.constantName r.name, settings r, true⟩) := by
    apply List.ext_getElem?
    intro i
    simp [visits]
  rw [composeVisits, hvisits, List.foldlM_map]
  rfl

theorem count_of_composeRoutes (h : Yields (Pipeline.composeRoutes cat hook) s n s') :
    ∃ lines, compose cat.config hook cat.routes = .ok lines ∧ lines.length = n := by
  obtain ⟨lines, hlines, h⟩ := Yields.lift_bind.1 h
  refine ⟨lines, hlines, ?_⟩
  split at h
  · obtain ⟨_, _, -, h⟩ := Yields.bind_iff.1 h
    exact (Yields.pure_iff.1 h).1.symm
  · exact (Yields.pure_iff.1 h).1.symm

end Hooked

/-- Constants never collide, whatever the hook does at each visit. There is one for each route that
is accepted and one for each family, and each is named as was asked or with the first number that
makes its name new. -/
theorem constants_distinct (cat : Catalog) (hooks : Nat → Hook) :
    (match composeVisits cat.config (visits cat.config hooks cat.routes) with
      | .ok lines => ∃ cs : List Constant, lines = cs.map Constant.text ∧
          (cs.map (·.name)).Nodup ∧
          cs.length = (accepted (visits cat.config hooks cat.routes)).length +
            (bases (accepted (visits cat.config hooks cat.routes))).length ∧
          ∀ i c, cs[i]? = some c →
            ∃ q, (requests cat.config (visits cat.config hooks cat.routes))[i]? = some q ∧
              c.type = q.type ∧ q.literal = .ok c.literal ∧
              Chosen ((cs.take i).map (·.name)) q.wanted c.name
      | .error e => ∃ v ∈ accepted (visits cat.config hooks cat.routes),
          Script.literal (.obj v.2.settings) = .error e ∨
            v.family?.isSome = true ∧ Composition.pathOf v.2.settings = .error e) ∧
    ∀ hook, (∀ i, hooks i = hook) →
      compose cat.config hook cat.routes =
        composeVisits cat.config (visits cat.config hooks cat.routes) ∧
      ∀ s n s', Yields (Pipeline.composeRoutes cat hook) s n s' →
        ∃ lines, compose cat.config hook cat.routes = .ok lines ∧ lines.length = n := by
  constructor
  · generalize visits cat.config hooks cat.routes = vs
    cases hcompose : composeVisits cat.config vs with
    | error e => exact exists_of_composeVisits_error hcompose
    | ok lines =>
      rw [composeVisits_eq] at hcompose
      obtain ⟨cs, hgrant, rfl⟩ := exists_of_map_ok hcompose
      have hgranted := granted_of_grant hgrant
      refine ⟨cs, rfl, hgranted.nodup, ?_, ?_⟩
      · calc cs.length
          _ = (requests cat.config vs).length := hgranted.length_eq
          _ = (accepted vs).length + (familiesOf (accepted vs)).keys.length := by
            simp [requests, OrderedMap.keys]
          _ = (accepted vs).length + (bases (accepted vs)).length := by rw [keys_familiesOf]
      · intro i c hc
        obtain ⟨q, hq, hanswer, hchosen⟩ := hgranted.exists_request hc
        rw [List.append_nil] at hchosen
        exact ⟨q, hq, hanswer.type, hanswer.literal, hchosen⟩
  · intro hook hhook
    obtain rfl : hooks = fun _ => hook := funext hhook
    exact ⟨(composeVisits_hook cat.config hook cat.routes).symm,
      fun s n s' h => count_of_composeRoutes h⟩

end Routes
end HydraClient
