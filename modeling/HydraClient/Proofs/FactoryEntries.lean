import HydraClient.Proofs.FactoryDepth
import HydraClient.Proofs.PropertyKeys
import Mathlib.Logic.Relation

/-! # Entries of factories

Collecting the properties of a factory comes to an end whatever the types extend, also in circles.
Every type that a factory reaches through types with factories is visited once and gives the names
of its properties. No name occurs twice, that of the type itself comes before all others, and the
text of the factory has an entry for each that is not read-only.
-/
namespace HydraClient

open TypeRegistry

def ByName (m : OrderedMap String Property) : Prop := ∀ x p, m.get? x = some p → p.name = x

section ByName

variable {m : OrderedMap String Property} {p : Property}

theorem byName_empty : ByName .empty := by
  intro x p h
  cases h

theorem ByName.insert (h : ByName m) (p : Property) : ByName (m.insert p.name p) := by
  intro x q hq
  rw [OrderedMap.get?_insert] at hq
  split at hq
  · rename_i hx
    rw [hx, Option.some.inj hq]
  · exact h x q hq

theorem ByName.map_name (h : ByName m) : m.values.map (·.name) = m.keys := by
  rw [OrderedMap.values, OrderedMap.keys, List.map_map]
  exact List.map_congr_left fun e he => h e.1 e.2 (OrderedMap.mem_entries_iff.1 he)

end ByName

namespace TypeRegistry

structure FiledAs (n : String) (t : TypeEntry) : Prop where
  named : t.name = n
  properties : ByName t.properties

/-- Registering, removing and changing types all keep this. -/
def Filed (r : TypeRegistry) : Prop := ∀ n t, r.get? n = some t → FiledAs n t

namespace Filed

variable {r : TypeRegistry} {t u : TypeEntry} {n m : String}

theorem eq_of_name_eq (h : Filed r) (ht : r.get? n = some t) (hu : r.get? m = some u)
    (hname : t.name = u.name) : t = u := by
  rw [(h n t ht).named, (h m u hu).named] at hname
  subst hname
  exact Option.some.inj (ht.symm.trans hu)

theorem empty : Filed {} := by
  intro n t h
  cases h

theorem put (h : Filed r) (ht : ByName t.properties) : Filed (r.put t) := by
  intro n u hu
  rw [get?_put] at hu
  split at hu
  · rename_i hn
    obtain rfl := Option.some.inj hu
    exact ⟨hn.symm, ht⟩
  · exact h n u hu

theorem remove (h : Filed r) (n : String) : Filed (r.remove n) := by
  intro m u hu
  rw [TypeRegistry.remove, TypeRegistry.get?, OrderedMap.get?_erase] at hu
  split at hu
  · cases hu
  · exact h m u hu

theorem modify {f : TypeEntry → TypeEntry} (h : Filed r) (hname : ∀ t, (f t).name = t.name)
    (hproperties : ∀ t, ByName t.properties → ByName (f t).properties) :
    Filed (r.modify n f) := by
  intro m u hu
  rw [get?_modify] at hu
  split at hu
  · obtain ⟨v, hv, rfl⟩ := Option.map_eq_some_iff.1 hu
    exact ⟨(hname v).trans (h m v hv).named, hproperties v (h m v hv).properties⟩
  · exact h m u hu

end Filed

end TypeRegistry

namespace Render

abbrev Collected := OrderedMap String Property × List String

/-- Collects from the types that are extended, one after the other, as deep as they go. -/
inductive Collects (r : TypeRegistry) : Collected → List String → Collected → Prop where
  | done {acc : Collected} : Collects r acc [] acc
  | skip {acc out : Collected} {n : String} {rest : List String} :
      (∀ u, r.get? n = some u → u.hasFactory = true → u.name ∈ acc.2) →
      Collects r acc rest out → Collects r acc (n :: rest) out
  | visit {acc got out : Collected} {n : String} {rest : List String} {u : TypeEntry} :
      r.get? n = some u → u.hasFactory = true → u.name ∉ acc.2 →
      Collects r (.empty, u.name :: acc.2) u.supers got →
      Collects r (overlay acc.1 (overlay got.1 u.properties), got.2) rest out →
      Collects r acc (n :: rest) out

section Gathering

variable {r : TypeRegistry} {acc out : Collected} {ns : List String} {n x : String}
  {t u : TypeEntry} {p : Property} {depth : Nat}

theorem get?_overlay (base upper : OrderedMap String Property) (x : String) :
    (overlay base upper).get? x = (upper.get? x).or (base.get? x) := by
  obtain ⟨l, hl⟩ := upper
  unfold overlay
  dsimp only
  induction l generalizing base with
  | nil => rfl
  | cons e rest ih =>
    obtain ⟨hnew, hrest⟩ := List.nodup_cons.1 hl
    rw [List.foldl_cons, ih _ hrest, OrderedMap.get?_insert]
    by_cases hx : x = e.1
    · subst hx
      have hnone : (⟨rest, hrest⟩ : OrderedMap String Property).get? e.1 = none :=
        OrderedMap.get?_eq_none_iff.2 hnew
      have hfirst : (⟨e :: rest, hl⟩ : OrderedMap String Property).get? e.1 = some e.2 := by
        simp [OrderedMap.get?]
      rw [hnone, hfirst, if_pos rfl, Option.none_or, Option.some_or]
    · have hlater : (⟨e :: rest, hl⟩ : OrderedMap String Property).get? x =
          (⟨rest, hrest⟩ : OrderedMap String Property).get? x := by
        simp [OrderedMap.get?, Ne.symm hx]
      rw [hlater, if_neg hx]

theorem mem_keys_overlay {base upper : OrderedMap String Property} :
    x ∈ (overlay base upper).keys ↔ x ∈ base.keys ∨ x ∈ upper.keys := by
  simp only [OrderedMap.mem_keys_iff, get?_overlay]
  cases upper.get? x with
  | none => simp
  | some p => simp

theorem visitSuper_of_skip (h : ∀ u, r.get? n = some u → u.hasFactory = true → u.name ∈ acc.2) :
    visitSuper r depth acc n = acc := by
  unfold visitSuper
  cases hu : r.get? n with
  | none => rfl
  | some u =>
    refine if_pos ?_
    rw [Bool.or_eq_true, Bool.not_eq_true', List.contains_iff_mem]
    cases hf : u.hasFactory with
    | false => exact .inl rfl
    | true => exact .inr (h u hu hf)

theorem visitSuper_of_visit (hu : r.get? n = some u) (hf : u.hasFactory = true)
    (hnew : u.name ∉ acc.2) : visitSuper r depth acc n =
      (overlay acc.1 (collectProperties r depth acc.2 u).1,
        (collectProperties r depth acc.2 u).2) := by
  have hvisit : ¬(!u.hasFactory || acc.2.contains u.name) = true := by
    rw [hf, Bool.not_true, Bool.false_or, List.contains_iff_mem]
    exact hnew
  simp only [visitSuper, hu, if_neg hvisit]

theorem Collects.unique {out' : Collected} (h : Collects r acc ns out)
    (h' : Collects r acc ns out') :
    out = out' := by
  induction h generalizing out' with
  | done =>
    cases h'
    rfl
  | skip hskip _ ih =>
    cases h' with
    | skip _ hrest => exact ih hrest
    | visit hu hf hnew _ _ => exact absurd (hskip _ hu hf) hnew
  | visit hu hf hnew _ _ ihgot ihrest =>
    cases h' with
    | skip hskip _ => exact absurd (hskip _ hu hf) hnew
    | visit hu' _ _ hgot hrest =>
      obtain rfl := Option.some.inj (hu.symm.trans hu')
      obtain rfl := ihgot hgot
      exact ihrest hrest

/-- A depth of as many levels as there are types to visit is no bound. -/
theorem collects_foldl (hr : r.Filed) (h : (unvisited r acc.2).card ≤ depth) :
    Collects r acc ns (ns.foldl (visitSuper r depth) acc) := by
  -- A visit takes one level for the parents of the type, and none for the types beside it.
  induction depth using Nat.strong_induction_on generalizing acc ns with
  | _ depth ih =>
    induction ns generalizing acc with
    | nil => exact .done
    | cons n rest ihrest =>
      rw [List.foldl_cons]
      by_cases hskip : ∀ u, r.get? n = some u → u.hasFactory = true → u.name ∈ acc.2
      · rw [visitSuper_of_skip hskip]
        exact .skip hskip (ihrest h)
      · push Not at hskip
        obtain ⟨u, hu, hf, hnew⟩ := hskip
        have hlt := card_unvisited_lt ⟨u, (hr n u hu).named.symm ▸ hu⟩ hnew
        obtain ⟨depth, rfl⟩ := Nat.exists_eq_succ_of_ne_zero (by omega : depth ≠ 0)
        have hseen : acc.2 ⊆ (visitSuper r (depth + 1) acc n).2 :=
          subset_visitSuper fun _ _ => subset_collectProperties
        have hrest := ihrest ((card_unvisited_le hseen).trans h)
        rw [visitSuper_of_visit hu hf hnew, collectProperties_succ] at hrest ⊢
        exact .visit hu hf hnew (ih depth (Nat.lt_succ_self _) (Nat.le_of_lt_succ (hlt.trans_le h)))
          hrest

def Lifts (r : TypeRegistry) (t u : TypeEntry) : Prop :=
  ∃ n ∈ t.supers, r.get? n = some u ∧ u.hasFactory = true

def VisitedIn (r : TypeRegistry) (before after : List String) (u : TypeEntry) : Prop :=
  r.get? u.name = some u ∧ u.name ∉ before ∧ u.name ∈ after

theorem visitedIn_iff {before between after : List String} (hbefore : before ⊆ between)
    (hafter : between ⊆ after) : VisitedIn r before after u ↔
      VisitedIn r before between u ∨ VisitedIn r between after u := by
  constructor
  · rintro ⟨hu, hnew, hmem⟩
    by_cases hbetween : u.name ∈ between
    · exact .inl ⟨hu, hnew, hbetween⟩
    · exact .inr ⟨hu, hbetween, hmem⟩
  · rintro (⟨hu, hnew, hmem⟩ | ⟨hu, hnew, hmem⟩)
    · exact ⟨hu, hnew, hafter hmem⟩
    · exact ⟨hu, fun h => hnew (hbefore h), hmem⟩

theorem visitedIn_cons_iff {seen : List String} {w : TypeEntry} (hu : r.get? u.name = some u)
    (hnew : u.name ∉ seen) : VisitedIn r seen (u.name :: seen) w ↔ w = u := by
  constructor
  · rintro ⟨hw, hfresh, hmem⟩
    have hname : w.name = u.name := (List.mem_cons.1 hmem).resolve_right hfresh
    rw [hname, hu] at hw
    exact (Option.some.inj hw).symm
  · rintro rfl
    exact ⟨hu, hnew, List.mem_cons_self⟩

/-- What collecting from some types comes to. -/
structure Gathered (r : TypeRegistry) (acc : Collected) (ns : List String) (out : Collected) :
    Prop where
  kept : acc.2 ⊆ out.2
  seen : ∀ n ∈ ns, ∀ u, r.get? n = some u → u.hasFactory = true → u.name ∈ out.2
  reached : ∀ w, VisitedIn r acc.2 out.2 w →
    ∃ n ∈ ns, ∃ u, r.get? n = some u ∧ u.hasFactory = true ∧ Relation.ReflTransGen (Lifts r) u w
  closed : ∀ w, VisitedIn r acc.2 out.2 w → ∀ v, Lifts r w v → v.name ∈ out.2
  held : ∀ x ∈ acc.1.keys, x ∈ out.1.keys
  given : ∀ w, VisitedIn r acc.2 out.2 w → ∀ x ∈ w.properties.keys, x ∈ out.1.keys
  stems : ∀ x p, out.1.get? x = some p → acc.1.get? x = some p ∨
    ∃ w, VisitedIn r acc.2 out.2 w ∧ w.properties.get? x = some p

namespace Gathered

theorem done (r : TypeRegistry) (acc : Collected) : Gathered r acc [] acc where
  kept := List.Subset.refl _
  seen := nofun
  reached _ hw := absurd hw.2.2 hw.2.1
  closed _ hw := absurd hw.2.2 hw.2.1
  held _ hx := hx
  given _ hw := absurd hw.2.2 hw.2.1
  stems _ _ hp := .inl hp

theorem skip (hskip : ∀ u, r.get? n = some u → u.hasFactory = true → u.name ∈ acc.2)
    (h : Gathered r acc ns out) : Gathered r acc (n :: ns) out where
  kept := h.kept
  seen := List.forall_mem_cons.2 ⟨fun u hu hf => h.kept (hskip u hu hf), h.seen⟩
  reached w hw := by
    obtain ⟨m, hm, hreach⟩ := h.reached w hw
    exact ⟨m, List.mem_cons_of_mem _ hm, hreach⟩
  closed := h.closed
  held := h.held
  given := h.given
  stems := h.stems

theorem visit {got : Collected} (hn : r.get? n = some u) (hname : r.get? u.name = some u)
    (hf : u.hasFactory = true) (hnew : u.name ∉ acc.2)
    (hgot : Gathered r (.empty, u.name :: acc.2) u.supers got)
    (hout : Gathered r (overlay acc.1 (overlay got.1 u.properties), got.2) ns out) :
    Gathered r acc (n :: ns) out := by
  have hbefore : acc.2 ⊆ u.name :: acc.2 := List.subset_cons_self _ _
  have hkept : acc.2 ⊆ got.2 := List.Subset.trans hbefore hgot.kept
  have hself : u.name ∈ got.2 := hgot.kept List.mem_cons_self
  -- The type itself is visited first, then its ancestors, then those of the other types.
  have hvisited : ∀ w, VisitedIn r acc.2 out.2 w ↔
      w = u ∨ VisitedIn r (u.name :: acc.2) got.2 w ∨ VisitedIn r got.2 out.2 w := by
    intro w
    rw [visitedIn_iff hkept hout.kept, visitedIn_iff hbefore hgot.kept,
      visitedIn_cons_iff hname hnew, or_assoc]
  have hkeys : ∀ x, x ∈ acc.1.keys ∨ x ∈ got.1.keys ∨ x ∈ u.properties.keys → x ∈ out.1.keys :=
    fun x hx => hout.held x (by rwa [mem_keys_overlay, mem_keys_overlay])
  refine ⟨List.Subset.trans hkept hout.kept, ?seen, ?reached, ?closed,
    fun x hx => hkeys x (.inl hx), ?given, ?stems⟩
  case seen =>
    refine List.forall_mem_cons.2 ⟨fun v hv _ => ?_, hout.seen⟩
    obtain rfl : u = v := Option.some.inj (hn.symm.trans hv)
    exact hout.kept hself
  case reached =>
    intro w hw
    rcases (hvisited w).1 hw with rfl | hw | hw
    · exact ⟨n, List.mem_cons_self, w, hn, hf, .refl⟩
    · obtain ⟨m, hm, v, hv, hfv, hreach⟩ := hgot.reached w hw
      exact ⟨n, List.mem_cons_self, u, hn, hf, .head ⟨m, hm, hv, hfv⟩ hreach⟩
    · obtain ⟨m, hm, hreach⟩ := hout.reached w hw
      exact ⟨m, List.mem_cons_of_mem _ hm, hreach⟩
  case closed =>
    intro w hw v hv
    rcases (hvisited w).1 hw with rfl | hw | hw
    · obtain ⟨m, hm, hget, hfv⟩ := hv
      exact hout.kept (hgot.seen m hm v hget hfv)
    · exact hout.kept (hgot.closed w hw v hv)
    · exact hout.closed w hw v hv
  case given =>
    intro w hw x hx
    rcases (hvisited w).1 hw with rfl | hw | hw
    · exact hkeys x (.inr (.inr hx))
    · exact hkeys x (.inr (.inl (hgot.given w hw x hx)))
    · exact hout.given w hw x hx
  case stems =>
    intro x p hp
    rcases hout.stems x p hp with hp | ⟨w, hw, hp⟩
    · rw [get?_overlay, get?_overlay, Option.or_eq_some_iff, Option.or_eq_some_iff] at hp
      rcases hp with (hp | ⟨-, hp⟩) | ⟨-, hp⟩
      · exact .inr ⟨u, (hvisited u).2 (.inl rfl), hp⟩
      · rcases hgot.stems x p hp with hp | ⟨w, hw, hp⟩
        · cases hp
        · exact .inr ⟨w, (hvisited w).2 (.inr (.inl hw)), hp⟩
      · exact .inl hp
    · exact .inr ⟨w, (hvisited w).2 (.inr (.inr hw)), hp⟩

end Gathered

theorem Collects.gathered (hr : r.Filed) (h : Collects r acc ns out) : Gathered r acc ns out := by
  induction h with
  | done => exact .done _ _
  | skip hskip _ ih => exact ih.skip hskip
  | visit hn hf hnew _ _ hgot hout =>
    exact .visit hn ((hr _ _ hn).named.symm ▸ hn) hf hnew hgot hout

section Factory

variable {got : Collected}

/-- Collecting without a bound comes to an end, with one result. -/
theorem factoryProperties_collects (hr : r.Filed) (t : TypeEntry) :
    ∃ got, (∀ out, Collects r (.empty, [t.name]) t.supers out ↔ out = got) ∧
      factoryProperties r t = overlay got.1 t.properties := by
  have hcard : (unvisited r [t.name]).card ≤ r.size :=
    (card_unvisited_le (List.nil_subset _)).trans (card_unvisited_nil r)
  have hcollects : Collects r (.empty, [t.name]) t.supers
      (t.supers.foldl (visitSuper r r.size) (.empty, [t.name])) := collects_foldl hr hcard
  refine ⟨_, fun out => ⟨fun h => h.unique hcollects, fun h => h ▸ hcollects⟩, ?_⟩
  rw [factoryProperties, collectProperties_succ]

theorem registered_of_reaches (ht : r.get? n = some t)
    (h : Relation.ReflTransGen (Lifts r) t u) : ∃ m, r.get? m = some u := by
  cases h with
  | refl => exact ⟨n, ht⟩
  | tail _ hlast =>
    obtain ⟨m, -, hu, -⟩ := hlast
    exact ⟨m, hu⟩

theorem Gathered.visited_of_reaches (hr : r.Filed) (ht : r.get? n = some t)
    (h : Gathered r (.empty, [t.name]) t.supers got)
    (hu : Relation.ReflTransGen (Lifts r) t u) : u = t ∨ VisitedIn r [t.name] got.2 u := by
  induction hu with
  | refl => exact .inl rfl
  | @tail u v _ hlast ih =>
    obtain ⟨m, hm, hv, hf⟩ := hlast
    have hseen : v.name ∈ got.2 := by
      rcases ih with rfl | hvisited
      · exact h.seen m hm v hv hf
      · exact h.closed u hvisited v ⟨m, hm, hv, hf⟩
    by_cases hself : v.name = t.name
    · exact .inl (hr.eq_of_name_eq hv ht hself)
    · obtain rfl := (hr m v hv).named
      exact .inr ⟨hv, fun hmem => hself (List.mem_singleton.1 hmem), hseen⟩

theorem mem_keys_factoryProperties_iff (hr : r.Filed) (ht : r.get? n = some t) :
    x ∈ (factoryProperties r t).keys ↔
      ∃ u, Relation.ReflTransGen (Lifts r) t u ∧ x ∈ u.properties.keys := by
  obtain ⟨got, hcollects, hgot⟩ := factoryProperties_collects hr t
  have h := ((hcollects got).2 rfl).gathered hr
  rw [hgot, mem_keys_overlay]
  constructor
  · rintro (hx | hx)
    · obtain ⟨p, hp⟩ := OrderedMap.mem_keys_iff.1 hx
      obtain ⟨w, hw, hp⟩ := (h.stems x p hp).resolve_left (by simp)
      obtain ⟨m, hm, u, hu, hf, hreach⟩ := h.reached w hw
      exact ⟨w, .head ⟨m, hm, hu, hf⟩ hreach, OrderedMap.mem_keys_iff.2 ⟨p, hp⟩⟩
    · exact ⟨t, .refl, hx⟩
  · rintro ⟨u, hu, hx⟩
    rcases h.visited_of_reaches hr ht hu with rfl | hvisited
    · exact .inr hx
    · exact .inl (h.given u hvisited x hx)

theorem byName_factoryProperties (hr : r.Filed) (ht : r.get? n = some t) :
    ByName (factoryProperties r t) := by
  obtain ⟨got, hcollects, hgot⟩ := factoryProperties_collects hr t
  have h := ((hcollects got).2 rfl).gathered hr
  intro x p hp
  rw [hgot, get?_overlay, Option.or_eq_some_iff] at hp
  rcases hp with hp | ⟨-, hp⟩
  · exact (hr n t ht).properties x p hp
  · obtain ⟨w, hw, hp⟩ := (h.stems x p hp).resolve_left (by simp)
    exact (hr _ w hw.1).properties x p hp

theorem mem_factoryProperties_of_own (hr : r.Filed) (h : p ∈ t.properties.values) :
    p ∈ (factoryProperties r t).values := by
  obtain ⟨got, -, hgot⟩ := factoryProperties_collects hr t
  obtain ⟨x, hx⟩ := OrderedMap.mem_values_iff.1 h
  refine OrderedMap.mem_values_iff.2 ⟨x, ?_⟩
  rw [hgot, get?_overlay, hx, Option.some_or]

def margin : List Char := List.replicate 8 ' '

def assigned? (line : String) : Option String := do
  let s ← line.toList.dropPrefix? margin
  let (name, _) ← Script.readKey? s
  pure name

theorem assigned?_factoryLine (p : Property) : assigned? (factoryLine p) = some p.name := by
  obtain ⟨rest, hrest⟩ : ∃ rest, (factoryLine p).toList =
      margin ++ ((Script.propertyKey p.name).toList ++ ':' :: rest) := by
    have hmargin : "        ".toList = margin := by decide
    have hcolon : ": ".toList = ':' :: " ".toList := by decide
    unfold factoryLine
    simp only [String.toList_append, List.append_assoc, hmargin, hcolon, List.cons_append]
    exact ⟨_, rfl⟩
  rw [assigned?, hrest, List.dropPrefix?_append_of_beq _ (beq_self_eq_true margin),
    Option.bind_eq_bind, Option.bind_some, Script.readKey?_propertyKey (by decide)]
  rfl

theorem assigned?_eq_none {line : String} (h : ¬margin <+: line.toList) :
    assigned? line = none := by
  rw [assigned?, dropPrefix?_eq_none h]
  rfl

theorem filterMap_factoryLines (r : TypeRegistry) (t : TypeEntry) :
    (factoryLines r t).filterMap assigned? =
      ((factoryProperties r t).values.filter (!·.readOnly)).map (·.name) := by
  have hentries : (((factoryProperties r t).values.filter (!·.readOnly)).map factoryLine).filterMap
      assigned? = ((factoryProperties r t).values.filter (!·.readOnly)).map (·.name) := by
    rw [List.filterMap_map, ← List.filterMap_eq_map]
    exact List.filterMap_congr fun p _ => assigned?_factoryLine p
  have hhead (s : String) : assigned? ("export function " ++ s) = none := by
    have hfirst : "export function ".toList = 'e' :: "xport function ".toList := by decide
    refine assigned?_eq_none fun h => ?_
    rw [String.toList_append, hfirst, List.cons_append] at h
    exact absurd (List.cons_prefix_cons.1 h).1 (by decide)
  have hspread (s : String) : assigned? ("        ..." ++ s) = none := by
    have hfirst : "        ...".toList = margin ++ '.' :: "..".toList := by decide
    rw [assigned?, String.toList_append, hfirst, List.append_assoc,
      List.dropPrefix?_append_of_beq _ (beq_self_eq_true margin), Option.bind_eq_bind,
      Option.bind_some, List.cons_append, Script.readKey?_eq_none (by decide) (by decide)]
    rfl
  have hclose (s : String) : assigned? ("    \x7d as " ++ s) = none := by
    have hfirst : "    \x7d as ".toList = ' ' :: ' ' :: ' ' :: ' ' :: '\x7d' :: " as ".toList := by
      decide
    refine assigned?_eq_none fun h => ?_
    rw [String.toList_append, hfirst] at h
    simp [margin, List.replicate, List.cons_prefix_cons] at h
  have hempty : assigned? "" = none := assigned?_eq_none (by decide)
  have hopen : assigned? "    return \x7b" = none := assigned?_eq_none (by decide)
  have hend : assigned? "\x7d" = none := assigned?_eq_none (by decide)
  unfold factoryLines
  simp only [List.filterMap_append, hentries, List.filterMap_cons, List.filterMap_nil, hempty,
    hopen, hend, String.append_assoc, hhead, hspread, hclose, List.nil_append, List.append_nil]

/-- The properties of a factory are collected to the end. Each has a name of its own, the names are
those of the type and of all types with factories that it extends by way of such types, and those of
the type are its own properties. The entries are the properties that are not read-only. -/
theorem factory_lists_once (hr : r.Filed) (ht : r.get? n = some t) :
    (∃ got, (∀ out, Collects r (.empty, [t.name]) t.supers out ↔ out = got) ∧
      factoryProperties r t = overlay got.1 t.properties) ∧
    ((factoryProperties r t).values.map (·.name)).Nodup ∧
    (∀ x, x ∈ (factoryProperties r t).values.map (·.name) ↔
      ∃ u, Relation.ReflTransGen (Lifts r) t u ∧ x ∈ u.properties.values.map (·.name)) ∧
    (∀ p ∈ t.properties.values, p ∈ (factoryProperties r t).values) ∧
    (factoryLines r t).filterMap assigned? =
      ((factoryProperties r t).values.filter (!·.readOnly)).map (·.name) := by
  have hnames := (byName_factoryProperties hr ht).map_name
  refine ⟨factoryProperties_collects hr t, hnames ▸ (factoryProperties r t).distinct, fun x => ?_,
    fun p => mem_factoryProperties_of_own hr, filterMap_factoryLines r t⟩
  rw [hnames, mem_keys_factoryProperties_iff hr ht]
  refine exists_congr fun u => and_congr_right fun hu => ?_
  obtain ⟨m, hm⟩ := registered_of_reaches ht hu
  rw [(hr m u hm).properties.map_name]

def vehicleType (name : String) (supers : List String) (properties : List Property) : TypeEntry :=
  properties.foldl TypeEntry.addProperty
    { name := name, kind := .interface, supers := supers, hasFactory := true }

theorem byName_vehicleType (name : String) (supers : List String) (properties : List Property) :
    ByName (vehicleType name supers properties).properties := by
  refine List.foldlRecOn (motive := fun t : TypeEntry => ByName t.properties) properties
    TypeEntry.addProperty byName_empty ?_
  intro t ht p _
  exact ht.insert p

def taxiPlate : Property := { name := "plate", defaultLiteral := some "\"T-1\"" }

def taxi : TypeEntry := vehicleType "Taxi" ["Car", "Cab", "Ghost"] [taxiPlate]

/-- A taxi extends a vehicle in two ways, and the vehicle extends the taxi. -/
def fleet : TypeRegistry :=
  [taxi, vehicleType "Car" ["Vehicle"] [{ name := "plate" }, { name := "seats" }],
    vehicleType "Cab" ["Vehicle"] [{ name := "fare" }],
    vehicleType "Vehicle" ["Taxi"] [{ name := "@id", readOnly := true },
      { name := "wheels" }]].foldl
    TypeRegistry.put {}

theorem taxi_lists_once : fleet.Filed ∧ fleet.get? "Taxi" = some taxi ∧
    (factoryLines fleet taxi).filterMap assigned? = ["wheels", "plate", "seats", "fare"] ∧
    taxiPlate ∈ (factoryProperties fleet taxi).values ∧
    ∃ u, Relation.ReflTransGen (Lifts fleet) taxi u ∧
      "@id" ∈ u.properties.values.map (·.name) := by
  have hfiled : fleet.Filed :=
    (((Filed.empty.put (byName_vehicleType _ _ _)).put (byName_vehicleType _ _ _)).put
      (byName_vehicleType _ _ _)).put (byName_vehicleType _ _ _)
  have htaxi : fleet.get? "Taxi" = some taxi := rfl
  obtain ⟨-, -, hnames, hown, hentries⟩ := factory_lists_once hfiled htaxi
  refine ⟨hfiled, htaxi, hentries.trans (by decide +kernel), hown _ List.mem_cons_self,
    (hnames "@id").1 (by decide +kernel)⟩

end Factory

end Gathering

end Render

end HydraClient
