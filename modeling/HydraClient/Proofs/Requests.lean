import HydraClient.Proofs.Outcomes
import HydraClient.Proofs.Reachability
import HydraClient.Proofs.Spellings

/-! # Requests for types

Classes and enums are asked for one after the other, and a request may break off half-way. Whatever
it comes to, it leaves what is registered as it is, and what it adds has the first of its names that
no other source holds.
-/
namespace HydraClient

open Metadata TypeRegistry Model

namespace TypeRegistry

variable {r : TypeRegistry} {names : List String} {n c : String}

/-- Every candidate before the chosen one belongs to another source. -/
theorem resolveName_first (h : r.resolveName names c = .ok n) :
    ∃ before after, names = before ++ n :: after ∧
      ∀ m ∈ before, ∃ held, r.get? m = some held ∧ held.source ≠ some c := by
  unfold resolveName at h
  split at h
  · rename_i m hm
    obtain rfl := Except.ok.inj h
    obtain ⟨-, before, after, hnames, hbefore⟩ := List.find?_eq_some_iff_append.1 hm
    refine ⟨before, after, hnames, fun k hk => ?_⟩
    have hheld := hbefore k hk
    cases hget : r.get? k with
    | none => simp [hget] at hheld
    | some held => exact ⟨held, rfl, by simpa [hget] using hheld⟩
  · cases h

structure Matched (r : TypeRegistry) : Prop extends Coherent r where
  indexed : ∀ {n t c}, r.get? n = some t → t.source = some c → r.sources.get? c = some n

namespace Matched

variable {t : TypeEntry}

theorem put (h : Matched r) (hl : r.lookupSource c = none) (hfree : r.get? t.name = none)
    (ht : t.source = some c) : Matched (r.put t) where
  toCoherent := h.toCoherent.put ht (by simp [hfree])
  indexed {m u s} hu hs := by
    rw [sources_put ht, OrderedMap.get?_insert]
    rw [get?_put] at hu
    split at hu
    · rename_i hm
      obtain rfl := Option.some.inj hu
      rw [if_pos (Option.some.inj (hs.symm.trans ht)), hm]
    · have hne : s ≠ c := fun e => h.source_ne hl hu (e ▸ hs)
      rw [if_neg hne]
      exact h.indexed hu hs

theorem modify {f : TypeEntry → TypeEntry} (h : Matched r) (hf : ∀ t, (f t).head = t.head) :
    Matched (r.modify n f) where
  toCoherent := h.toCoherent.modify hf
  indexed {m u s} hu hs := by
    obtain ⟨v, hv, hhead⟩ := exists_of_get?_modify hf hu
    exact h.indexed hv ((TypeEntry.source_of_head hhead).symm.trans hs)

theorem lookupSource (h : Matched r) (ht : r.get? n = some t) :
    ∃ c, t.source = some c ∧ r.lookupSource c = some t := by
  obtain ⟨c, -, hc, -⟩ := h.known ht
  exact ⟨c, hc, lookupSource_eq_some.2 ⟨n, h.indexed ht hc, ht⟩⟩

theorem name_injective {a b : String} {u : TypeEntry} (h : Matched r)
    (ha : r.lookupSource a = some t) (hb : r.lookupSource b = some u) (hname : t.name = u.name) :
    a = b := by
  obtain ⟨-, hta, hsa⟩ := h.of_lookupSource ha
  obtain ⟨-, hub, hsb⟩ := h.of_lookupSource hb
  rw [hname, hub] at hta
  obtain rfl := Option.some.inj hta
  exact Option.some.inj (hsa.symm.trans hsb)

theorem of_exactly {hydra : String} (h : BaseTypes.Exactly (BaseTypes.all hydra) r) :
    Matched r where
  toCoherent := h.coherent
  indexed {n t c} ht hc := by
    obtain ⟨s, m, hs, hm⟩ := h.coherent.known ht
    obtain rfl := Option.some.inj (hs.symm.trans hc)
    obtain ⟨u, hu, hus⟩ := h.coherent.sourced hm
    have hnodup : ((BaseTypes.all hydra).map (·.source)).Nodup := by
      rw [BaseTypes.sources_all]
      decide
    obtain rfl := List.inj_on_of_nodup_map hnodup (h.among ht) (h.among hu) (hc.trans hus.symm)
    rw [hm, ← h.coherent.named hu, h.coherent.named ht]

end Matched
end TypeRegistry

/-- The names that a source may take for a class or an enum, the preferred one first. -/
inductive Nameable (cat : Catalog) (c : String) : TypeKind → List String → Prop where
  | model {shape : ClassDecl} : cat.class? c = some shape →
      Nameable cat c .interface (nameCandidates cat.config shape)
  | enumeration {shape : EnumDecl} : cat.enum? c = some shape →
      Nameable cat c .nativeEnum (enumCandidates c)

/-- A type whose name is free, and the first of its names that belongs to no other source. -/
structure Chosen (cat : Catalog) (r : TypeRegistry) (t : TypeEntry) : Prop where
  free : r.get? t.name = none
  first : ∃ c before after, t.source = some c ∧
    Nameable cat c t.kind (before ++ t.name :: after) ∧
    ∀ m ∈ before, ∃ held, r.get? m = some held ∧ held.source ≠ some c

section Lengthening

variable {cat : Catalog} {r r' r'' : TypeRegistry} {t u : TypeEntry} {n c : String}

theorem Chosen.of_head (h : Chosen cat r t) (hu : u.head = t.head) : Chosen cat r u := by
  obtain ⟨hfree, hfirst⟩ := h
  rw [← TypeEntry.name_of_head hu] at hfree
  rw [← TypeEntry.name_of_head hu, ← TypeEntry.kind_of_head hu,
    ← TypeEntry.source_of_head hu] at hfirst
  exact ⟨hfree, hfirst⟩

theorem chosen_bare {shape : ClassDecl} (hc : cat.class? c = some shape) (hfree : r.get? n = none)
    (hn : r.resolveName (nameCandidates cat.config shape) c = .ok n) :
    Chosen cat r (bare n c shape) := by
  obtain ⟨before, after, hnames, hbefore⟩ := resolveName_first hn
  have hnameable : Nameable cat c .interface (before ++ n :: after) := by
    rw [← hnames]
    exact .model hc
  exact ⟨hfree, c, before, after, rfl, hnameable, hbefore⟩

theorem chosen_nativeEnum {file : String} {shape : EnumDecl} (hc : cat.enum? c = some shape)
    (hfree : r.get? n = none) (hn : r.resolveName (enumCandidates c) c = .ok n) :
    Chosen cat r (nativeEnum n c file shape) := by
  obtain ⟨before, after, hnames, hbefore⟩ := resolveName_first hn
  have hnameable : Nameable cat c .nativeEnum (before ++ n :: after) := by
    rw [← hnames]
    exact .enumeration hc
  exact ⟨hfree, c, before, after, rfl, hnameable, hbefore⟩

/-- Everything is still there as it was, and every type that has been added has chosen its name
among what was there at that time. -/
structure Lengthens (cat : Catalog) (r r' : TypeRegistry) : Prop where
  matched : Matched r'
  kept : Extends r r'
  chosen : ∀ {n t}, r.get? n = none → r'.get? n = some t →
    ∃ m, Extends r m ∧ Keeps m r' ∧ Chosen cat m t

namespace Lengthens

theorem refl (h : Matched r) : Lengthens cat r r where
  matched := h
  kept := .refl r
  chosen hnone ht := by simp [hnone] at ht

theorem of_eq (h : Matched r) (he : r' = r) : Lengthens cat r r' := by
  rw [he]
  exact .refl h

theorem trans (h : Lengthens cat r r') (h' : Lengthens cat r' r'') : Lengthens cat r r'' where
  matched := h'.matched
  kept := h.kept.trans h'.kept
  chosen {n t} hnone ht := by
    cases hmid : r'.get? n with
    | none =>
      obtain ⟨m, hm, hkeeps, hchosen⟩ := h'.chosen hmid ht
      exact ⟨m, h.kept.trans hm, hkeeps, hchosen⟩
    | some u =>
      obtain rfl := Option.some.inj ((h'.kept.entries hmid).symm.trans ht)
      obtain ⟨m, hm, hkeeps, hchosen⟩ := h.chosen hnone hmid
      exact ⟨m, hm, hkeeps.trans (.of_extends h'.kept), hchosen⟩

theorem put (h : Matched r) (hl : r.lookupSource c = none) (ht : t.source = some c)
    (hchosen : Chosen cat r t) : Lengthens cat r (r.put t) := by
  have hkept : Extends r (r.put t) := .put hl h.toCoherent ht hchosen.free
  refine ⟨h.put hl hchosen.free ht, hkept, fun {n u} hnone hu => ?_⟩
  rw [get?_put] at hu
  split at hu
  · obtain rfl := Option.some.inj hu
    exact ⟨r, .refl r, .of_extends hkept, hchosen⟩
  · simp [hnone] at hu

theorem modify {f : TypeEntry → TypeEntry} (h : Lengthens cat r r') (hn : r.get? n = none)
    (hf : ∀ t, (f t).head = t.head) : Lengthens cat r (r'.modify n f) where
  matched := h.matched.modify hf
  kept := h.kept.modify hn
  chosen {k t} hnone ht := by
    obtain ⟨u, hu, hhead⟩ := exists_of_get?_modify hf ht
    obtain ⟨m, hm, hkeeps, hchosen⟩ := h.chosen hnone hu
    exact ⟨m, hm, hkeeps.trans (.modify hf), hchosen.of_head hhead⟩

end Lengthens

def Lengthening {α : Type} (cat : Catalog) (x : Drafting α) : Prop :=
  ∀ r, Ends (fun s => Lengthens cat r s.types) x (fun _ s => Lengthens cat r s.types)
    (fun _ s => Lengthens cat r s.types)

theorem Lengthening.of_start {α : Type} {x : Drafting α}
    (h : ∀ r, Matched r → Ends (·.types = r) x (fun _ s => Lengthens cat r s.types)
      (fun _ s => Lengthens cat r s.types)) : Lengthening cat x := by
  intro r s hs
  have := h s.types hs.matched s rfl
  rcases hx : outcome x s with ⟨e | a, m⟩ <;> rw [hx] at this
  · exact hs.trans this
  · exact hs.trans this

theorem lengthening_resolveEnum (c : String) (file : Option String) :
    Lengthening cat (resolveEnum cat c file) := by
  refine .of_start fun r hr => ?_
  have hunchanged : ∀ s : Draft, s.types = r → Lengthens cat r s.types := fun s hs => .of_eq hr hs
  refine ends_resolveEnum file ?_ ?_ ?_ ?_ ?_
  · rintro s rfl
    exact hr.toCoherent
  · exact fun s t hs _ => hunchanged s hs
  · exact fun s e hs _ => hunchanged s hs
  · exact fun _ s hs => hunchanged s hs
  · rintro s name file shape rfl hl hname hc
    exact .put hr hl rfl (chosen_nativeEnum hc (hr.resolveName_fresh hl hname) hname)

section Classes

variable {visit : String → Drafting TypeEntry} {owner : TypeEntry}
  (hv : ∀ c, Lengthening cat (visit c))

include hv

theorem lengthening_buildProperty (field : Field) (inherited : Bool) :
    Lengthening cat (buildProperty cat visit owner field inherited) := by
  intro r
  refine ends_buildProperty (I := fun _ s => Lengthens cat r s.types) inherited ?_ ?_ ?_ ?_
  · exact fun _ _ _ c _ _ => ⟨fun _ => hv c r, fun _ file => lengthening_resolveEnum c file r⟩
  · exact fun _ _ _ _ _ _ s hs => hs
  · exact fun _ _ _ _ _ _ _ s hs => hs
  · exact fun _ _ _ _ _ s _ hs => hs

theorem lengthening_extractNew {className : String} {r : TypeRegistry} (hr : Matched r)
    (hl : r.lookupSource className = none) :
    Ends (·.types = r) (extractNew cat visit className) (fun _ s => Lengthens cat r s.types)
      (fun _ s => Lengthens cat r s.types) := by
  cases hc : cat.class? className with
  | none =>
    unfold extractNew
    simp only [hc]
    exact .throw fun s hs => .of_eq hr hs
  | some shape =>
    refine ends_extractNew (Q := fun s => Lengthens cat r s.types)
      (I := fun name _ s => r.get? name = none ∧ Lengthens cat r s.types) hc ?_ ?_ ?_ ?_ ?_ ?_
    · exact fun s e hs _ => .of_eq hr hs
    · rintro s name rfl hname
      exact hr.resolveName_fresh hl hname
    · rintro s name rfl hname
      have hfree := hr.resolveName_fresh hl hname
      have hput : Lengthens cat s.types (s.types.put (bare name className shape)) :=
        .put hr hl rfl (chosen_bare hc hfree hname)
      refine Ends.mono (P := fun m => Lengthens cat s.types m.types)
        (ends_extractParent (Q := fun m => s.types.get? name = none ∧ Lengthens cat s.types m.types)
          ?_ ?_)
        (fun m hm => hm ▸ hput) (fun _ _ h => h) fun _ _ h => h
      · exact fun _ m hm => ⟨hfree, hm⟩
      · intro n _ _ _
        exact (hv n s.types).mono (fun _ h => h)
          (fun p m hm => ⟨hfree, hm.modify hfree (head_withParent p)⟩) fun _ _ h => h
    · exact fun name s hs => ⟨hs.1, hs.2.modify hs.1 head_withAddress⟩
    · intro name parent done field rest _
      by_cases hfree : r.get? name = none
      · refine Ends.mono (P := fun m => Lengthens cat r m.types)
          (ends_extractField (Q := fun m => r.get? name = none ∧ Lengthens cat r m.types)
            (R := fun m => Lengthens cat r m.types) ?_ ?_ ?_)
          (fun _ hs => hs.2) (fun _ _ h => h) fun _ _ h => h
        · exact fun _ m hm => ⟨hfree, hm⟩
        · exact fun _ inherited => lengthening_buildProperty hv field inherited r
        · exact fun p m hm => ⟨hfree, hm.modify hfree fun t => t.head_addProperty p⟩
      · exact fun s hs => absurd hs.1 hfree
    · exact fun name s hs => hs.2

end Classes

theorem lengthening_extractWithin (depth : Nat) (c : String) :
    Lengthening cat (extractWithin cat depth c) := by
  -- A visit goes one class deeper, and adds to what its caller has added.
  induction depth generalizing c with
  | zero => exact fun r => .throw fun s hs => hs
  | succ depth ih =>
    refine .of_start fun r hr => .get_bind fun d hd => ?_
    subst hd
    have hrefl : ∀ s, s = d → Lengthens cat d.types s.types := fun s hs => .of_eq hr (hs ▸ rfl)
    cases hl : d.types.lookupSource c with
    | some t => exact .pure hrefl
    | none =>
      exact (lengthening_extractNew ih hr hl).mono (fun s hs => hs ▸ rfl) (fun _ _ h => h)
        fun _ _ h => h

end Lengthening

inductive Request where
  | extract (className : String)
  | resolveEnum (className : String) (file : Option String)

namespace Request

variable {cat : Catalog} {s s' : Draft} {q : Request} {t : TypeEntry}

def source : Request → String
  | extract c => c
  | resolveEnum c _ => c

def work (cat : Catalog) : Request → Drafting TypeEntry
  | extract c => Model.extract cat c
  | resolveEnum c file => Model.resolveEnum cat c file

/-- What requests leave, one after the other, also those that fail. -/
def leave (cat : Catalog) (s : Draft) (requests : List Request) : Draft :=
  requests.foldl (fun s q => (outcome (q.work cat) s).2) s

theorem lengthening (q : Request) : Lengthening cat (q.work cat) := by
  cases q with
  | extract c => exact lengthening_extractWithin _ c
  | resolveEnum c file => exact lengthening_resolveEnum c file

theorem lengthens (hs : Matched s.types) (q : Request) :
    Lengthens cat s.types (outcome (q.work cat) s).2.types :=
  (q.lengthening s.types).left (.refl hs)

theorem matched_leave (hs : Matched s.types) (requests : List Request) :
    Matched (leave cat s requests).types := by
  unfold leave
  induction requests generalizing s with
  | nil => exact hs
  | cons q rest ih => exact ih (q.lengthens hs).matched

theorem outcome_of_known (hl : s.types.lookupSource q.source = some t) :
    outcome (q.work cat) s = (.ok t, s) := by
  cases q with
  | extract c =>
    have hl : s.types.lookupSource c = some t := hl
    refine (outcome_get_bind _).trans ?_
    simp only [hl]
    rfl
  | resolveEnum c file =>
    have hl : s.types.lookupSource c = some t := hl
    refine (outcome_get_bind _).trans ?_
    simp only [hl]
    rfl

theorem lookupSource_of_yields (hs : Coherent s.types) (h : Yields (q.work cat) s t s') :
    s'.types.lookupSource q.source = some t := by
  cases q with
  | extract c => exact (extract_finds c hs h).2
  | resolveEnum c file =>
    refine Ends.ok (P := fun s => Coherent s.types) (E := fun _ _ => True)
      (Q := fun t s => s.types.lookupSource c = some t) ?_ hs h
    refine ends_resolveEnum file (fun _ hs => hs) (fun _ _ _ hl => hl) (fun _ _ _ _ => trivial)
      (fun _ _ _ => trivial) ?_
    exact fun s name file shape _ _ _ _ => lookupSource_put rfl

end Request

/-- After any requests, a further one leaves every type as it is and only adds types, whether it
succeeds or breaks off. Names and sources stay one-to-one, a known source is answered without a
change, and a type that is added has the first of its names that no other source held then. -/
theorem requests_only_add {doc : Document} {disk : Disk} {seeded s s' : Draft}
    {earlier : List Request} {q : Request} {result : Except Failure TypeEntry}
    (hseed : Yields (BaseTypes.seed doc.config disk) {} ⟨⟩ seeded)
    (hearlier : Request.leave (.ofDocument doc) seeded earlier = s)
    (hcall : outcome (q.work (.ofDocument doc)) s = (result, s')) :
    Extends s.types s'.types ∧
      (∀ {n t}, s'.types.get? n = some t →
        t.name = n ∧ ∃ c, t.source = some c ∧ s'.types.lookupSource c = some t) ∧
      (∀ {a b t u}, s'.types.lookupSource a = some t → s'.types.lookupSource b = some u →
        t.name = u.name → a = b) ∧
      (∀ t, s.types.lookupSource q.source = some t → result = .ok t ∧ s' = s) ∧
      (∀ t, result = .ok t → s'.types.lookupSource q.source = some t) ∧
      ∀ {n t}, s.types.get? n = none → s'.types.get? n = some t →
        ∃ r, Extends s.types r ∧ Keeps r s'.types ∧ Chosen (.ofDocument doc) r t := by
  have hs : Matched s.types :=
    hearlier ▸ Request.matched_leave (.of_exactly (BaseTypes.yields_seed hseed).1) earlier
  have hlengthens : Lengthens (.ofDocument doc) s.types s'.types := by
    have hleft : Lengthens (.ofDocument doc) s.types
        (outcome (q.work (.ofDocument doc)) s).2.types :=
      q.lengthens hs
    rwa [hcall] at hleft
  have hs' := hlengthens.matched
  refine ⟨hlengthens.kept, fun ht => ⟨hs'.named ht, hs'.lookupSource ht⟩, hs'.name_injective, ?_,
    ?_, hlengthens.chosen⟩
  · intro t ht
    rw [Request.outcome_of_known ht] at hcall
    obtain ⟨rfl, rfl⟩ := Prod.mk.inj hcall
    exact ⟨rfl, rfl⟩
  · rintro t rfl
    exact Request.lookupSource_of_yields hs.toCoherent hcall

/-- Two classes of one base name, of which the second has a field without a type. -/
def twoPosts : Document where
  classes := [
    { className := "App\\Entity\\Post" },
    { className := "App\\Legacy\\Post"
      fields := [{ name := "rating", types := [{ builtin := "resource" }] }] }]

/-- The second class breaks off and stays with its longer name, since the first one has the shorter.
-/
theorem legacyPost_only_added : ∃ seeded s result s',
    Yields (BaseTypes.seed twoPosts.config {}) {} ⟨⟩ seeded ∧
    Request.leave (.ofDocument twoPosts) seeded [.extract "App\\Entity\\Post"] = s ∧
    outcome (Request.work (.ofDocument twoPosts) (.extract "App\\Legacy\\Post")) s = (result, s') ∧
    result.isOk = false ∧ Extends s.types s'.types ∧
    ∃ t r, s'.types.get? "LegacyPost" = some t ∧ Extends s.types r ∧ Keeps r s'.types ∧
      Chosen (.ofDocument twoPosts) r t := by
  have hseed : Yields (BaseTypes.seed twoPosts.config {}) {} ⟨⟩ (baseDraft twoPosts) := by
    obtain ⟨⟨⟩, hok⟩ := exists_of_isOk
      (x := (outcome (BaseTypes.seed twoPosts.config {}) {}).1) (by decide +kernel)
    exact yields_of_outcome hok
  let s := Request.leave (.ofDocument twoPosts) (baseDraft twoPosts) [.extract "App\\Entity\\Post"]
  let left := outcome (Request.work (.ofDocument twoPosts) (.extract "App\\Legacy\\Post")) s
  have hfails : left.1.isOk = false := by decide +kernel
  have hnew : (s.types.get? "LegacyPost").isNone = true := by decide +kernel
  have hadded : (left.2.types.get? "LegacyPost").isSome = true := by decide +kernel
  obtain ⟨t, ht⟩ := Option.isSome_iff_exists.1 hadded
  have hcall : outcome (Request.work (.ofDocument twoPosts) (.extract "App\\Legacy\\Post")) s =
      (left.1, left.2) := Prod.mk.eta.symm
  obtain ⟨hextends, -, -, -, -, hchosen⟩ := requests_only_add hseed rfl hcall
  obtain ⟨r, hr, hkeeps, hr'⟩ := hchosen (Option.isNone_iff_eq_none.1 hnew) ht
  exact ⟨_, s, left.1, left.2, hseed, rfl, hcall, hfails, hextends, t, r, ht, hr, hkeeps, hr'⟩

end HydraClient
