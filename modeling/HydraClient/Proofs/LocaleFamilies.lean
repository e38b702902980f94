import HydraClient.Proofs.Lookup
import HydraClient.Proofs.RouteConstants

/-! # Families of routes

A family has the routes that are named after it and their locale. A name is split at one place only,
as no locale has a dot, so a family holds exactly its members, in the order in which they are
declared, and carries the settings of the one for the default locale.
-/
namespace HydraClient.Routes

open Metadata (Config Route)

def LocalePart (s : List Char) : Prop :=
  (s.length = 2 ∨ s.length = 3) ∧ ∀ c ∈ s, Text.isWord c = true

/-- Two or three word characters, optionally followed by an underscore and two or three more. -/
def Locale (s : List Char) : Prop :=
  LocalePart s ∨ ∃ language region, s = language ++ '_' :: region ∧
    LocalePart language ∧ LocalePart region

section Locales

variable {s s' passed base locale : List Char} {c : Char}

theorem isLocalePart_iff : isLocalePart s = true ↔ LocalePart s := by
  simp [isLocalePart, LocalePart]

theorem isLocale_iff : isLocale s = true ↔ Locale s := by
  unfold isLocale Locale
  rw [Bool.or_eq_true, isLocalePart_iff, List.any_eq_true]
  refine or_congr_right ⟨?_, ?_⟩
  · rintro ⟨k, -, h⟩
    simp only [Bool.and_eq_true, isLocalePart_iff, beq_iff_eq] at h
    obtain ⟨⟨hlanguage, hunderscore⟩, hregion⟩ := h
    obtain ⟨region, hregion'⟩ := List.head?_eq_some_iff.1 hunderscore
    have htail : s.drop (k + 1) = region := by
      rw [← List.drop_drop, hregion']
      rfl
    refine ⟨s.take k, region, ?_, hlanguage, htail ▸ hregion⟩
    rw [← hregion', List.take_append_drop]
  · rintro ⟨language, region, rfl, hlanguage, hregion⟩
    refine ⟨language.length, by simpa using hlanguage.1, ?_⟩
    simp [isLocalePart_iff, hlanguage, hregion]

instance : Decidable (Locale s) := decidable_of_iff _ isLocale_iff

theorem dot_not_mem_of_locale (h : Locale s) : '.' ∉ s := by
  have hword : Text.isWord '.' = false := by decide
  have hpart : ∀ {p}, LocalePart p → '.' ∉ p := fun hp hdot => by
    cases (hp.2 _ hdot).symm.trans hword
  rcases h with h | ⟨language, region, rfl, hlanguage, hregion⟩
  · exact hpart h
  · simp [hpart hlanguage, hpart hregion]

/-- A name on one line is split before its locale, and nowhere else. -/
theorem localeSplit?_eq_some (hs : '\n' ∉ s) : localeSplit? passed s = some (base, locale) ↔
    ∃ rest, s = rest ++ '.' :: locale ∧ base = passed.reverse ++ rest ∧ base ≠ [] ∧
      Locale locale := by
  induction s generalizing passed with
  | nil => simp [localeSplit?]
  | cons c tail ih =>
    rw [List.mem_cons, not_or] at hs
    obtain ⟨hc, htail⟩ := hs
    have hlast : tail.getLast? ≠ some '\n' := fun h => htail (List.mem_of_getLast? h)
    unfold localeSplit?
    dsimp only
    rw [if_neg hlast]
    by_cases hsplit : (c = '.' && !passed.isEmpty && isLocale tail) = true
    · rw [if_pos hsplit]
      simp only [Bool.and_eq_true, decide_eq_true_eq, Bool.not_eq_true', List.isEmpty_eq_false_iff,
        isLocale_iff] at hsplit
      obtain ⟨⟨rfl, hpassed⟩, hlocale⟩ := hsplit
      constructor
      · intro h
        obtain ⟨rfl, rfl⟩ := Prod.mk.inj (Option.some.inj h)
        exact ⟨[], rfl, (List.append_nil _).symm, by simpa using hpassed, hlocale⟩
      · rintro ⟨rest, hrest, rfl, -, -⟩
        cases rest with
        | nil =>
          obtain ⟨-, rfl⟩ := List.cons.inj hrest
          rw [List.append_nil]
        | cons d rest =>
          -- A later split would leave a dot within the locale.
          obtain ⟨-, rfl⟩ := List.cons.inj hrest
          exact absurd (by simp) (dot_not_mem_of_locale hlocale)
    · rw [if_neg hsplit, if_neg (Ne.symm hc), ih htail]
      constructor
      · rintro ⟨rest, rfl, rfl, hbase, hlocale⟩
        exact ⟨c :: rest, rfl, by simp, hbase, hlocale⟩
      · rintro ⟨rest, hrest, rfl, hbase, hlocale⟩
        cases rest with
        | nil =>
          obtain ⟨rfl, rfl⟩ := List.cons.inj hrest
          refine absurd ?_ hsplit
          simpa [isLocale_iff.2 hlocale] using hbase
        | cons d rest =>
          obtain ⟨rfl, rfl⟩ := List.cons.inj hrest
          exact ⟨rest, rfl, by simp, hbase, hlocale⟩

end Locales

/-- A route is the member of a family for a locale if it is named after both and requires the
locale. -/
structure Member (base locale : String) (r : Route) : Prop where
  name : r.name = base ++ "." ++ locale
  formed : Locale locale.toList
  required : r.requirements.get? "_locale" = some locale

def localeOf? (base : String) (r : Route) : Option String :=
  (r.requirements.get? "_locale").filter fun locale =>
    r.name = base ++ "." ++ locale ∧ Locale locale.toList

def unreserved (config : Config) (routes : List Route) : List Route :=
  routes.filter fun r => !isReserved config r.name

def members (config : Config) (routes : List Route) (base : String) : List (String × Route) :=
  (unreserved config routes).filterMap fun r => (localeOf? base r).map fun locale => (locale, r)

/-- The member for the default locale, or else the first one. -/
def lead? (defaultLocale : String) (ms : List (String × Route)) : Option Route :=
  ((ms.find? (·.1 == defaultLocale)).or ms.head?).map Prod.snd

def pathText (r : Route) : String := String.ofList (shapeOf r).path

/-- The settings of a family: those of its lead under the base name, and the paths of all
members. -/
def localeAware (base : String) (lead : Route) (ms : List (String × Route)) :
    List (String × Json) :=
  settings { lead with name := base } ++
    [("paths", .obj (ms.map fun m => (m.1, .str (pathText m.2))))]

section Members

variable {config : Config} {routes : List Route} {r : Route} {base base' locale : String}

theorem localeOf?_eq_some : localeOf? base r = some locale ↔ Member base locale r := by
  rw [localeOf?, Option.filter_eq_some_iff, decide_eq_true_iff]
  constructor
  · rintro ⟨hrequired, hname, hlocale⟩
    exact ⟨hname, hlocale, hrequired⟩
  · rintro ⟨hname, hlocale, hrequired⟩
    exact ⟨hrequired, hname, hlocale⟩

theorem family?_eq_some (hline : '\n' ∉ r.name.toList) :
    family? r = some (base, locale) ↔ base ≠ "" ∧ Member base locale r := by
  have hsplit : ∀ b l, localeSplit? [] r.name.toList = some (b, l) ↔
      r.name = String.ofList b ++ "." ++ String.ofList l ∧ b ≠ [] ∧ Locale l := by
    intro b l
    rw [localeSplit?_eq_some hline, ← String.toList_inj]
    simp
  have hempty : ∀ {s : String}, s ≠ "" ↔ s.toList ≠ [] := by simp
  unfold family?
  constructor
  · intro h
    split at h
    · cases h
    · rename_i b l hs
      obtain ⟨hname, hb, hl⟩ := (hsplit b l).1 hs
      dsimp only at h
      split at h
      · rename_i hrequired
        obtain ⟨rfl, rfl⟩ := Prod.mk.inj (Option.some.inj h)
        exact ⟨by simpa [hempty] using hb, hname, by simpa using hl, hrequired⟩
      · cases h
  · rintro ⟨hbase, hname, hlocale, hrequired⟩
    rw [(hsplit base.toList locale.toList).2 ⟨by simpa using hname, hempty.1 hbase, hlocale⟩]
    dsimp only
    rw [String.ofList_toList, String.ofList_toList, if_pos hrequired]

theorem exists_lead (defaultLocale : String) {ms : List (String × Route)} (hms : ms ≠ []) :
    ∃ lead, lead? defaultLocale ms = some lead := by
  obtain ⟨m, rest, rfl⟩ := List.exists_cons_of_ne_nil hms
  unfold lead?
  cases (m :: rest).find? (·.1 == defaultLocale) with
  | some m' => exact ⟨m'.2, rfl⟩
  | none => exact ⟨m.2, rfl⟩

theorem mem_of_lead {defaultLocale : String} {ms : List (String × Route)} {lead : Route}
    (h : lead? defaultLocale ms = some lead) : ∃ m ∈ ms, m.2 = lead := by
  obtain ⟨m, hm, rfl⟩ := Option.map_eq_some_iff.1 h
  refine ⟨m, ?_, rfl⟩
  rcases Option.or_eq_some_iff.1 hm with hm | ⟨-, hm⟩
  · exact List.mem_of_find?_eq_some hm
  · exact List.mem_of_head? hm

theorem map_snd_members : (members config routes base).map Prod.snd =
    (unreserved config routes).filter fun r => (localeOf? base r).isSome := by
  rw [members, List.map_filterMap, ← List.filterMap_eq_filter]
  refine List.filterMap_congr fun r _ => ?_
  cases h : localeOf? base r <;> simp [Option.guard, h]

theorem member_of_mem {m : String × Route} (h : m ∈ members config routes base) :
    Member base m.1 m.2 := by
  obtain ⟨r, -, hm⟩ := List.mem_filterMap.1 h
  obtain ⟨locale, hlocale, rfl⟩ := Option.map_eq_some_iff.1 hm
  exact localeOf?_eq_some.1 hlocale

theorem mem_unreserved_of_mem {m : String × Route} (h : m ∈ members config routes base) :
    m.2 ∈ unreserved config routes := by
  obtain ⟨r, hr, hm⟩ := List.mem_filterMap.1 h
  obtain ⟨_, -, rfl⟩ := Option.map_eq_some_iff.1 hm
  exact hr

theorem nodup_locales (hnames : (routes.map (·.name)).Nodup) :
    ((members config routes base).map Prod.fst).Nodup := by
  apply List.Nodup.of_map (base ++ "." ++ ·)
  have hsame : ((members config routes base).map Prod.fst).map (base ++ "." ++ ·) =
      ((members config routes base).map Prod.snd).map (·.name) := by
    rw [List.map_map, List.map_map]
    exact List.map_congr_left fun m hm => (member_of_mem hm).name.symm
  rw [hsame, map_snd_members]
  exact hnames.sublist ((List.filter_sublist.trans List.filter_sublist).map _)

end Members

def unhooked (r : Route) : Visit := (r, ⟨r, Text.constantName r.name, settings r, true⟩)

section Unhooked

variable {config : Config} {routes : List Route} {r : Route} {base defaultLocale : String}
  {ms : List (String × Route)}

theorem accepted_unhooked : accepted (routes.map unhooked) = routes.map unhooked := by
  refine List.filter_eq_self.2 fun v hv => ?_
  obtain ⟨r, -, rfl⟩ := List.mem_map.1 hv
  rfl

theorem compose_eq : compose config id routes =
    (grant [] (requests config ((unreserved config routes).map unhooked))).map
      (·.map Constant.text) := by
  have hvisits : visits config (fun _ => id) routes = (unreserved config routes).map unhooked := by
    apply List.ext_getElem?
    intro i
    simp only [visits, List.getElem?_mapIdx, List.getElem?_map]
    rfl
  rw [← composeVisits_hook, hvisits, composeVisits_eq]

theorem membersOf_unhooked (hlines : ∀ r ∈ routes, '\n' ∉ r.name.toList) (hbase : base ≠ "") :
    membersOf base ((unreserved config routes).map unhooked) =
      (members config routes base).map fun m => (m.1, settings m.2) := by
  rw [membersOf, members, List.filterMap_map, List.map_filterMap]
  refine List.filterMap_congr fun r hr => ?_
  have hline := hlines r (List.mem_filter.1 hr).1
  apply Option.ext
  intro m
  simp only [Function.comp_apply, Visit.member?, Visit.family?, unhooked, Option.bind_eq_some_iff,
    Option.map_map, Option.map_eq_some_iff, localeOf?_eq_some]
  constructor
  · rintro ⟨⟨b, locale⟩, hfamily, hm⟩
    split at hm
    · rename_i hb
      obtain rfl : b = base := hb
      exact ⟨locale, ((family?_eq_some hline).1 hfamily).2, Option.some.inj hm⟩
    · cases hm
  · rintro ⟨locale, hmember, rfl⟩
    exact ⟨(base, locale), (family?_eq_some hline).2 ⟨hbase, hmember⟩, if_pos rfl⟩

theorem mem_bases_unhooked (hlines : ∀ r ∈ routes, '\n' ∉ r.name.toList) :
    base ∈ bases ((unreserved config routes).map unhooked) ↔
      base ≠ "" ∧ members config routes base ≠ [] := by
  rw [mem_bases_iff]
  by_cases hbase : base = ""
  · subst hbase
    simp only [ne_eq, not_true_eq_false, false_and, iff_false, not_not]
    rw [membersOf, List.filterMap_map, List.filterMap_eq_nil_iff]
    intro r hr
    rw [Function.comp_apply, Visit.member?, Option.bind_eq_none_iff]
    rintro ⟨b, locale⟩ hfamily
    refine if_neg ?_
    exact ((family?_eq_some (hlines r (List.mem_filter.1 hr).1)).1 hfamily).1
  · rw [membersOf_unhooked hlines hbase]
    simp [hbase]

theorem familySettings_members (hlocales : (ms.map Prod.fst).Nodup) {lead : Route}
    (hlead : lead? defaultLocale ms = some lead) :
    Composition.familySettings defaultLocale base (.ofList (ms.map fun m => (m.1, settings m.2))) =
      .ok (localeAware base lead ms) := by
  have hentries : (OrderedMap.ofList (ms.map fun m => (m.1, settings m.2))).entries =
      ms.map fun m => (m.1, settings m.2) :=
    OrderedMap.entries_ofList (by simpa [Function.comp_def] using hlocales)
  have hget : (OrderedMap.ofList (ms.map fun m => (m.1, settings m.2))).get? defaultLocale =
      (ms.find? (·.1 == defaultLocale)).map fun m => settings m.2 := by
    rw [OrderedMap.get?, hentries, List.find?_map, Option.map_map]
    rfl
  have hfirst : (OrderedMap.ofList (ms.map fun m => (m.1, settings m.2))).values.head? =
      ms.head?.map fun m => settings m.2 := by
    rw [OrderedMap.values, hentries, List.map_map, List.head?_map]
    rfl
  have hpaths : (ms.map fun m => (m.1, settings m.2)).mapM
      (fun e => do return (e.1, ← Composition.pathOf e.2)) =
        (.ok (ms.map fun m => (m.1, .str (pathText m.2))) : Except Failure _) := by
    rw [List.mapM_map]
    exact mapM_eq_ok fun m _ => rfl
  unfold Composition.familySettings
  rw [hget, hfirst, hentries, hpaths]
  unfold lead? at hlead
  cases hfind : ms.find? (·.1 == defaultLocale) with
  | some m =>
    rw [hfind] at hlead
    obtain rfl := Option.some.inj hlead
    rfl
  | none =>
    rw [hfind, Option.none_or] at hlead
    obtain ⟨m, hm, rfl⟩ := Option.map_eq_some_iff.1 hlead
    rw [hm]
    rfl

theorem writable_settings (h : ∀ v ∈ (shapeOf r).defaults.values, v.unwritable? = none) :
    (Json.obj (settings r)).unwritable? = none := by
  have hdefaults : (Json.obj (shapeOf r).defaults.entries).unwritable? = none :=
    unwritable?_obj.2 fun m hm => h m.2 (List.mem_map_of_mem hm)
  have hvars : (Json.obj ((shapeOf r).vars.entries.map fun e =>
      (e.1, .obj [("isRequired", .bool e.2)]))).unwritable? = none := by
    refine unwritable?_obj.2 fun m hm => ?_
    obtain ⟨e, -, rfl⟩ := List.mem_map.1 hm
    rfl
  refine unwritable?_obj.2 ?_
  simp only [settings, List.forall_mem_cons, hdefaults, hvars]
  exact ⟨rfl, rfl, trivial, trivial, rfl, by simp⟩

theorem writable_localeAware {lead : Route} (h : (Json.obj (settings lead)).unwritable? = none) :
    (Json.obj (localeAware base lead ms)).unwritable? = none := by
  have hpaths : (Json.obj (ms.map fun m => (m.1, .str (pathText m.2)))).unwritable? = none := by
    refine unwritable?_obj.2 fun m hm => ?_
    obtain ⟨_, -, rfl⟩ := List.mem_map.1 hm
    rfl
  refine unwritable?_obj.2 fun m hm => ?_
  rcases List.mem_append.1 hm with hm | hm
  · rcases List.mem_cons.1 hm with rfl | hm
    · rfl
    · exact unwritable?_obj.1 h m (List.mem_cons_of_mem _ hm)
  · obtain rfl := List.mem_singleton.1 hm
    exact hpaths

theorem familyRequest_unhooked (hnames : (routes.map (·.name)).Nodup)
    (hlines : ∀ r ∈ routes, '\n' ∉ r.name.toList)
    (hwritable : ∀ r ∈ unreserved config routes, (Json.obj (settings r)).unwritable? = none)
    {e : String × Family}
    (he : e ∈ (familiesOf ((unreserved config routes).map unhooked)).entries) :
    ∃ lead, lead? config.defaultLocale (members config routes e.1) = some lead ∧
      (familyRequest config.defaultLocale e).type = "LocaleAwareRouteInterface" ∧
      (familyRequest config.defaultLocale e).literal =
        .ok (Json.obj (localeAware e.1 lead (members config routes e.1))).compact := by
  obtain ⟨base, f⟩ := e
  have hbase : base ∈ bases ((unreserved config routes).map unhooked) := by
    rw [← keys_familiesOf]
    exact List.mem_map_of_mem he
  obtain ⟨hbase, hmembers⟩ := (mem_bases_unhooked hlines).1 hbase
  -- No hook has changed the settings of a member, so the family has them as they are.
  have hf : f = .ofList ((members config routes base).map fun m => (m.1, settings m.2)) := by
    rw [← membersOf_unhooked hlines hbase, ← get?_familiesOf, OrderedMap.mem_entries_iff.1 he,
      Option.getD_some]
  obtain ⟨lead, hlead⟩ := exists_lead config.defaultLocale hmembers
  obtain ⟨m, hm, rfl⟩ := mem_of_lead hlead
  have hliteral : (Json.obj (localeAware base m.2 (members config routes base))).unwritable? =
      none := writable_localeAware (hwritable m.2 (mem_unreserved_of_mem hm))
  refine ⟨m.2, hlead, rfl, ?_⟩
  rw [familyRequest, hf, familySettings_members (nodup_locales hnames) hlead]
  exact Script.written_ok_iff.2 ⟨hliteral, rfl⟩

end Unhooked

structure OfRoute (r : Route) (c : Constant) : Prop where
  type : c.type = "RouteInterface"
  literal : c.literal = (Json.obj (settings r)).compact

structure OfFamily (config : Config) (routes : List Route) (base : String) (c : Constant) :
    Prop where
  type : c.type = "LocaleAwareRouteInterface"
  literal : ∃ lead, lead? config.defaultLocale (members config routes base) = some lead ∧
    c.literal = (Json.obj (localeAware base lead (members config routes base))).compact

/-- Without a hook every route that is not reserved has its constant, and so has every family with a
member, if the defaults of all placeholders can be written. -/
theorem families_complete (config : Config) (routes : List Route)
    (hnames : (routes.map (·.name)).Nodup) (hlines : ∀ r ∈ routes, '\n' ∉ r.name.toList)
    (hvalues : ∀ r ∈ unreserved config routes, ∀ v ∈ (shapeOf r).defaults.values,
      v.unwritable? = none) :
    ∃ own families bases,
      compose config id routes = .ok ((own ++ families).map Constant.text) ∧
      List.Forall₂ OfRoute (unreserved config routes) own ∧
      bases.Nodup ∧ (∀ base, base ∈ bases ↔ base ≠ "" ∧ members config routes base ≠ []) ∧
      List.Forall₂ (OfFamily config routes) bases families := by
  have hwritable : ∀ r ∈ unreserved config routes, (Json.obj (settings r)).unwritable? = none :=
    fun r hr => writable_settings (hvalues r hr)
  have hfamily := fun e he => familyRequest_unhooked (e := e) hnames hlines hwritable he
  have hroute : ∀ r ∈ unreserved config routes,
      (routeRequest (unhooked r)).literal = .ok (Json.obj (settings r)).compact :=
    fun r hr => Script.written_ok_iff.2 ⟨hwritable r hr, rfl⟩
  obtain ⟨own, hown⟩ : ∃ own, grant [] ((unreserved config routes).map
      (routeRequest ∘ unhooked)) = .ok own := by
    refine exists_grant fun q hq => ?_
    obtain ⟨r, hr, rfl⟩ := List.mem_map.1 hq
    exact ⟨_, hroute r hr⟩
  obtain ⟨families, hfamilies⟩ : ∃ families, grant ((own.map (·.name)).reverse ++ [])
      ((familiesOf ((unreserved config routes).map unhooked)).entries.map
        (familyRequest config.defaultLocale)) = .ok families := by
    refine exists_grant fun q hq => ?_
    obtain ⟨e, he, rfl⟩ := List.mem_map.1 hq
    obtain ⟨_, -, -, hliteral⟩ := hfamily e he
    exact ⟨_, hliteral⟩
  refine ⟨own, families, bases ((unreserved config routes).map unhooked), ?_, ?_, ?_, ?_, ?_⟩
  · rw [compose_eq, requests, accepted_unhooked, List.map_map, grant_append, hown]
    dsimp only [bind, Except.bind]
    rw [hfamilies]
    rfl
  · have hgranted := List.forall₂_map_left_iff.1 (granted_of_grant hown).answers
    refine ((List.forall₂_and_left _ _).2 ⟨hroute, hgranted⟩).imp ?_
    rintro r c ⟨hr, htype, hliteral⟩
    exact ⟨htype, Except.ok.inj (hliteral.symm.trans hr)⟩
  · exact nodup_eraseDups _
  · exact fun base => mem_bases_unhooked hlines
  · rw [← keys_familiesOf, OrderedMap.keys, List.forall₂_map_left_iff]
    have hgranted := List.forall₂_map_left_iff.1 (granted_of_grant hfamilies).answers
    refine ((List.forall₂_and_left _ _).2 ⟨hfamily, hgranted⟩).imp ?_
    rintro e c ⟨⟨lead, hlead, htype', hliteral'⟩, htype, hliteral⟩
    exact ⟨htype.trans htype', lead, hlead, Except.ok.inj (hliteral.symm.trans hliteral')⟩

def faq : List Route :=
  [("fr", "/questions/\x7bpage<\\d+>\x7d"), ("en", "/faq/\x7bpage<\\d+>\x7d")].map fun p => {
    name := "faq." ++ p.1
    path := p.2
    requirements := .ofList [("_locale", p.1)]
    defaults := .ofList [("page", .int 1)] }

theorem faq_is_complete : ∃ own families bases,
    compose {} id faq = .ok ((own ++ families).map Constant.text) ∧
    List.Forall₂ OfRoute faq own ∧ "faq" ∈ bases ∧
    List.Forall₂ (OfFamily {} faq) bases families := by
  have hmembers : members {} faq "faq" ≠ [] := by
    rw [← List.isEmpty_eq_false_iff]
    decide +kernel
  obtain ⟨own, families, bases, hcompose, hown, -, hbases, hfamilies⟩ :=
    families_complete {} faq (by decide +kernel) (by decide +kernel) (by decide +kernel)
  have hfaq : "faq" ∈ bases := (hbases "faq").2 ⟨by decide +kernel, hmembers⟩
  exact ⟨own, families, bases, hcompose, hown, hfaq, hfamilies⟩

/-- A route with a date as the default of its placeholder. -/
def dated : Route where
  name := "blog.en"
  path := "/en/\x7bsince\x7d"
  requirements := .ofList [("_locale", "en")]
  defaults := .ofList [("since", .special (.date ⟨2020, 1, 1⟩))]

/-- The family of a route whose default has no form in JSON is not composed. -/
theorem dated_family_is_refused :
    ([dated].map (·.name)).Nodup ∧ (∀ r ∈ [dated], '\n' ∉ r.name.toList) ∧
    (members {} [dated] "blog").map Prod.fst = ["en"] ∧
    compose {} id [dated] = .error (.unwritable (.value "date")) := by
  exact ⟨by decide +kernel, by decide +kernel, by decide +kernel, by decide +kernel⟩

end HydraClient.Routes
