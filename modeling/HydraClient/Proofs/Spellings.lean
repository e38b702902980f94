import HydraClient.Proofs.Preservation
import Mathlib.Data.List.Nodup

/-! # Spellings of class names

References to a class are compared without leading backslashes, except that a parent is looked up
under the name that its child gives it. So there is one type for a class, unless a child spells the
class with a leading backslash and a type is made for that spelling as well.
-/
namespace HydraClient

open Metadata TypeRegistry

/-- A type that is made for a description is the only one of its source, and is found under it
unless the source is that of query parameters. -/
structure OwnSources (cat : Catalog) (r : TypeRegistry) : Prop where
  coherent : Coherent r
  unique : ∀ {n m t u}, r.get? n = some t → r.get? m = some u → t.isMade = true →
    u.isMade = true → t.source = u.source → n = m
  indexed : ∀ {n t c}, r.get? n = some t → t.isMade = true → t.source = some c →
    (∀ a ∈ cat.resources, c ≠ Operations.listSource a) → r.sources.get? c = some n

theorem TypeRegistry.Coherent.source_ne {r : TypeRegistry} {n s : String} {t : TypeEntry}
    (h : Coherent r) (hs : r.lookupSource s = none) (ht : r.get? n = some t) :
    t.source ≠ some s := by
  intro hsource
  obtain ⟨s', m, hs', hm⟩ := h.known ht
  obtain rfl := Option.some.inj (hsource.symm.trans hs')
  obtain ⟨u, hu, -⟩ := h.sourced hm
  rw [lookupSource_eq_some.2 ⟨m, hm, hu⟩] at hs
  cases hs

namespace OwnSources

variable {cat : Catalog} {r r' : TypeRegistry} {t : TypeEntry} {c name : String}

theorem put (h : OwnSources cat r) (hl : r.lookupSource c = none) (hfree : r.get? t.name = none)
    (ht : t.source = some c) : OwnSources cat (r.put t) where
  coherent := h.coherent.put ht (by simp [hfree])
  unique {n m u v} hu hv hmade hmade' hsame := by
    rw [get?_put] at hu hv
    split at hu <;> split at hv
    · simp_all
    · obtain rfl := Option.some.inj hu
      exact absurd (hsame.symm.trans ht) (h.coherent.source_ne hl hv)
    · obtain rfl := Option.some.inj hv
      exact absurd (hsame.trans ht) (h.coherent.source_ne hl hu)
    · exact h.unique hu hv hmade hmade' hsame
  indexed {n u s} hu hmade hs hlist := by
    rw [sources_put ht, OrderedMap.get?_insert]
    rw [get?_put] at hu
    split at hu
    · rename_i hn
      obtain rfl := Option.some.inj hu
      rw [if_pos (Option.some.inj (hs.symm.trans ht)), hn]
    · rw [if_neg, h.indexed hu hmade hs hlist]
      rintro rfl
      exact h.coherent.source_ne hl hu hs

theorem modify {f : TypeEntry → TypeEntry} (h : OwnSources cat r) (hf : ∀ t, (f t).head = t.head) :
    OwnSources cat (r.modify name f) := by
  have hold : ∀ {n u}, (r.modify name f).get? n = some u → ∃ v, r.get? n = some v ∧
      u.isMade = v.isMade ∧ u.source = v.source := fun {n u} hu => by
    obtain ⟨v, hv, hhead⟩ := exists_of_get?_modify hf hu
    exact ⟨v, hv, TypeEntry.isMade_of_head hhead, TypeEntry.source_of_head hhead⟩
  refine ⟨h.coherent.modify hf, fun hu hv hmade hmade' hsame => ?_, fun hu hmade hs hlist => ?_⟩
  · obtain ⟨u, hu, hum, hus⟩ := hold hu
    obtain ⟨v, hv, hvm, hvs⟩ := hold hv
    exact h.unique hu hv (hum ▸ hmade) (hvm ▸ hmade') (hus.symm.trans (hsame.trans hvs))
  · obtain ⟨u, hu, hum, hus⟩ := hold hu
    exact h.indexed hu (hum ▸ hmade) (hus.symm.trans hs) hlist

theorem put_list {a : String} (h : OwnSources cat r) (ha : a ∈ cat.resources)
    (ht : t.source = some (Operations.listSource a)) (hplain : t.isMade = false)
    (hheld : ∀ held, r.get? t.name = some held → held.source = t.source) :
    OwnSources cat (r.put t) := by
  have hold : ∀ {n u}, (r.put t).get? n = some u → u.isMade = true → r.get? n = some u := by
    intro n u hu hmade
    rw [get?_put] at hu
    split at hu
    · obtain rfl := Option.some.inj hu
      rw [hplain] at hmade
      cases hmade
    · exact hu
  refine ⟨h.coherent.put ht hheld, fun hu hv hmade hmade' hsame => ?_,
    fun hu hmade hs hlist => ?_⟩
  · exact h.unique (hold hu hmade) (hold hv hmade') hmade hmade' hsame
  · rw [sources_put ht, OrderedMap.get?_insert, if_neg (hlist a ha)]
    exact h.indexed (hold hu hmade) hmade hs hlist

theorem grow (h : OwnSources cat r) (hg : Growth cat r r') : OwnSources cat r' := by
  cases hg with
  | opened _ hl hn => exact h.put hl (h.coherent.resolveName_fresh hl hn) rfl
  | enumerated _ _ hl hn _ => exact h.put hl (h.coherent.resolveName_fresh hl hn) rfl
  | extended => exact h.modify (Model.head_withParent _)
  | addressed => exact h.modify Model.head_withAddress
  | filled => exact h.modify fun t => t.head_addProperty _
  | @listed entry _ resource e o d ha _ _ _ _ _ _ _ hheld =>
    have hhead := Operations.listType_head cat.config entry resource e o d
    refine h.put_list ha Operations.listType_source ?_ (by simpa using hheld)
    exact (congrArg TypeEntry.isMade hhead :)

theorem grows (h : OwnSources cat r) (hg : Grows cat r r') : OwnSources cat r' := by
  induction hg with
  | refl => exact h
  | tail _ step ih => exact ih.grow step

end OwnSources

theorem OwnSources.of_exactly {cat : Catalog} {r : TypeRegistry}
    (h : BaseTypes.Exactly (BaseTypes.all cat.config.hydraStart) r) : OwnSources cat r := by
  have hbase : ∀ {n t}, r.get? n = some t → t.isMade = false := fun ht => by
    have hshared := BaseTypes.shared_of_mem (h.among ht)
    simp [TypeEntry.isMade, hshared.hasFactory, hshared.kind]
  refine ⟨h.coherent, fun ht _ hmade => ?_, fun ht hmade => ?_⟩ <;>
  · rw [hbase ht] at hmade
    cases hmade

def TypeRegistry.Knows (r : TypeRegistry) (c : String) : Prop := ∃ n, r.sources.get? c = some n

def Catalog.AsksPlainly (cat : Catalog) (c : String) : Prop :=
  ∀ shape, cat.class? c = some shape → ClassName.relative c = c

def Catalog.HasParent (cat : Catalog) (c parent : String) : Prop :=
  ∃ shape, cat.class? c = some shape ∧ shape.parent = some parent

/-- A description is known under its plain name, or under the name that a class which is known
gives its parent. -/
def PlainlyKnown (cat : Catalog) (r : TypeRegistry) : Prop :=
  ∀ c, r.Knows c → cat.classify c = .model ∨ cat.classify c = .enumeration →
    ClassName.relative c = c ∨ ∃ a, r.Knows a ∧ cat.HasParent a c

namespace PlainlyKnown

variable {cat : Catalog} {r : TypeRegistry} {t : TypeEntry} {c a : String}
  {known : List String}

theorem knows_put (ht : t.source = some c) : (r.put t).Knows a ↔ a = c ∨ r.Knows a := by
  unfold TypeRegistry.Knows
  rw [sources_put ht, OrderedMap.get?_insert]
  by_cases hac : a = c <;> simp [hac]

theorem put (h : PlainlyKnown cat r) (ht : t.source = some c)
    (hc : cat.classify c = .model ∨ cat.classify c = .enumeration →
      ClassName.relative c = c ∨ ∃ a, r.Knows a ∧ cat.HasParent a c) :
    PlainlyKnown cat (r.put t) := by
  intro n hn hkind
  have hold : ClassName.relative n = n ∨ ∃ a, r.Knows a ∧ cat.HasParent a n := by
    rcases (knows_put ht).1 hn with rfl | hn
    · exact hc hkind
    · exact h n hn hkind
  refine hold.imp_right ?_
  rintro ⟨a, ha, hparent⟩
  exact ⟨a, (knows_put ht).2 (.inr ha), hparent⟩

def With (cat : Catalog) (known : List String) (r : TypeRegistry) : Prop :=
  PlainlyKnown cat r ∧ ∀ a ∈ known, r.Knows a

theorem With.put (h : With cat known r) (ht : t.source = some c)
    (hc : cat.classify c = .model ∨ cat.classify c = .enumeration →
      ClassName.relative c = c ∨ ∃ a ∈ known, cat.HasParent a c) :
    With cat (c :: known) (r.put t) := by
  refine ⟨h.1.put ht fun hkind => ?_, fun a ha => (knows_put ht).2 ?_⟩
  · refine (hc hkind).imp_right ?_
    rintro ⟨a, ha, hparent⟩
    exact ⟨a, h.2 a ha, hparent⟩
  · exact (List.mem_cons.1 ha).imp_right (h.2 a)

theorem preserves_resolveEnum (hc : ClassName.relative c = c) (file : Option String) :
    Preserves (With cat known) (Model.resolveEnum cat c file) := by
  refine Model.alike_resolveEnum_of_put file fun {s n file shape} hs _ _ _ _ => ?_
  obtain ⟨hput, hknown⟩ := hs.put (t := Model.nativeEnum n c file shape) rfl fun _ => .inl hc
  exact ⟨hput, fun a ha => hknown a (List.mem_cons_of_mem _ ha)⟩

theorem preserves_extractWithin (depth : Nat) (known : List String) (c : String)
    (hc : ∀ shape, cat.class? c = some shape →
      ClassName.relative c = c ∨ ∃ a ∈ known, cat.HasParent a c) :
    Preserves (With cat known) (Model.extractWithin cat depth c) := by
  -- A class is known to its visits, so the invariant is for all lists of classes that are known.
  induction depth generalizing known c with
  | zero => exact .throw _
  | succ depth ih =>
    refine Alike.get.bind fun d => ?_
    split
    · exact .pure _
    · cases hshape : cat.class? c with
      | none =>
        unfold Model.extractNew
        rw [hshape]
        exact .throw _
      | some shape =>
        refine Alike.mono (J := fun s => With cat (c :: known) s.types) ?_ fun s hs =>
          ⟨hs.1, fun a ha => hs.2 a (List.mem_cons_of_mem _ ha)⟩
        refine Model.alike_extractNew (fun n f s hs => hs) (fun t s hs ht => ?_)
          (fun shape parent hclass hparent _ => ?_)
          fun shape hclass f hf hexposed form hform n hn => ?_
        · exact hs.put ht fun _ => hc shape hshape
        · exact ih _ _ fun _ _ => .inr ⟨c, List.mem_cons_self, shape, hclass, hparent⟩
        · have hplain := Model.relative_of_referred hn
          exact ⟨fun _ => ih _ _ fun _ _ => .inl hplain,
            fun _ file => preserves_resolveEnum hplain file⟩

theorem relative_listSource (h : ClassName.relative a = a) :
    ClassName.relative (Operations.listSource a) = Operations.listSource a := by
  have hmark : "#list-params".toList.dropWhile (· == '\\') = "#list-params".toList := by decide
  have ha : a.toList.dropWhile (· == '\\') = a.toList := by
    simpa [ClassName.relative] using congrArg String.toList h
  have hdrop : (a.toList ++ "#list-params".toList).dropWhile (· == '\\') =
      a.toList ++ "#list-params".toList := by
    rw [List.dropWhile_append, ha, hmark]
    split
    · rename_i hempty
      rw [List.isEmpty_iff.1 hempty, List.nil_append]
    · rfl
  rw [ClassName.relative, Operations.listSource, String.toList_append, hdrop,
    ← String.toList_append, String.ofList_toList]

theorem lasting (cat : Catalog) : Lasting cat cat.AsksPlainly (With cat []) where
  plain c _ _ := Model.relative_relative c
  visit c hc := preserves_extractWithin _ _ c fun shape hshape => .inl (hc shape hshape)
  list h _ hP hshape ht _ _ :=
    ⟨h.1.put ht fun _ => .inl (relative_listSource (hP _ hshape)), nofun⟩

theorem of_exactly (h : BaseTypes.Exactly (BaseTypes.all cat.config.hydraStart) r) :
    With cat [] r := by
  refine ⟨fun c hc _ => .inl ?_, nofun⟩
  obtain ⟨n, hn⟩ := hc
  obtain ⟨t, ht, hs⟩ := h.coherent.sourced hn
  have hplain : ∀ s ∈ (BaseTypes.all cat.config.hydraStart).map (·.source),
      s.map ClassName.relative = s := by
    rw [BaseTypes.sources_all]
    decide
  have hsource := hplain _ (List.mem_map_of_mem (h.among ht))
  rw [hs] at hsource
  exact Option.some.inj hsource

end PlainlyKnown

namespace Check

theorem nodup_of_repeats {seen names : List String}
    (h : ∀ p ∈ repeats seen names, p.2 = false) :
    names.Nodup ∧ ∀ n ∈ names, n ∉ seen := by
  induction names generalizing seen with
  | nil => simp
  | cons n rest ih =>
    obtain ⟨hnodup, hfresh⟩ := ih fun p hp => h p (List.mem_cons_of_mem _ hp)
    have hn : n ∉ seen := by simpa using h _ List.mem_cons_self
    refine ⟨List.nodup_cons.2 ⟨fun hmem => hfresh n hmem List.mem_cons_self, hnodup⟩, ?_⟩
    intro m hm
    rcases List.mem_cons.1 hm with rfl | hm
    · exact hn
    · exact fun hseen => hfresh m hm (List.mem_cons_of_mem _ hseen)

theorem nodup_classNames {doc : Document} (h : doc.verdict.hasErrors = false) :
    ((doc.classes.map (·.className) ++ doc.enums.map (·.className)).map
      ClassName.relative).Nodup := by
  refine (nodup_of_repeats fun p (hp : p ∈ repeats [] _) => ?_).1
  by_contra hrepeated
  rw [Verdict.hasErrors, List.any_eq_false] at h
  refine h (.error "DUPLICATE_CLASS" s!"Class '{p.1}' is described more than once."
    [("class", .str p.1)]) ?_ rfl
  simp only [Document.verdict, Verdict.merge, List.mem_append]
  refine .inl (.inl (.inl (List.mem_map.2 ⟨p, List.mem_filter.2 ⟨hp, ?_⟩, rfl⟩)))
  simpa using hrepeated

end Check

/-- Served classes are found under their names only if these are plain. -/
theorem asksPlainly_of_resources {doc : Document} (h : doc.verdict.hasErrors = false) :
    ∀ c ∈ (Catalog.ofDocument doc).resources, (Catalog.ofDocument doc).AsksPlainly c := by
  intro c hc shape hshape
  obtain ⟨⟨_, served⟩, hserved, rfl⟩ := List.mem_map.1 hc
  obtain ⟨hmem, hname⟩ := Catalog.mem_classes_of_class? hshape
  have hentry := OrderedMap.mem_of_get?_ofList
    (OrderedMap.mem_entries_iff.1 (List.mem_filter.1 hserved).1)
  obtain ⟨other, hother, hpair⟩ := List.mem_map.1 hentry
  obtain ⟨rfl, rfl⟩ := Prod.mk.inj hpair
  have hnodup := Check.nodup_classNames h
  rw [List.map_append, List.map_map, List.nodup_append] at hnodup
  have hsame := List.inj_on_of_nodup_map hnodup.1 hmem hother
    (by simp [hname, Model.relative_relative])
  rw [← hname, hsame]

/-- A type is made for a class or an enum, whatever backslashes its name leads with. -/
structure StemsFrom (r : TypeRegistry) (t : TypeEntry) (c : String) : Prop where
  registered : r.get? t.name = some t
  made : t.isMade = true
  source : t.source.map ClassName.relative = some (ClassName.relative c)

/-- A type is made for the name, with a leading backslash, that a class gives its parent. -/
def Respelled (cat : Catalog) (r : TypeRegistry) (t : TypeEntry) : Prop :=
  ∃ s a, t.source = some s ∧ ClassName.relative s ≠ s ∧ r.Knows a ∧ cat.HasParent a s

theorem Traced.classify_of_isMade {cat : Catalog} {r : TypeRegistry} {t : TypeEntry} {n s : String}
    (h : Traced cat r) (ht : r.get? n = some t) (hmade : t.isMade = true)
    (hs : t.source = some s) : cat.classify s = .model ∨ cat.classify s = .enumeration := by
  cases h.entries ht with
  | base hb =>
    have hshared := BaseTypes.shared_of_mem hb
    simp [TypeEntry.isMade, hshared.hasFactory, hshared.kind] at hmade
  | @model c shape hc hh _ =>
    have hsource : t.source = some c := TypeEntry.source_of_head hh
    obtain rfl := Option.some.inj (hs.symm.trans hsource)
    exact .inl (Catalog.classify_eq_model_iff.2 ⟨shape, hc⟩)
  | @enumeration c _ _ hc he =>
    have hsource : t.source = some c := (congrArg TypeEntry.source he :)
    obtain rfl := Option.some.inj (hs.symm.trans hsource)
    exact .inr hc
  | list hh =>
    have hplain : t.isMade = false := (congrArg TypeEntry.isMade hh :)
    rw [hplain] at hmade
    cases hmade

theorem StemsFrom.spelled {cat : Catalog} {r : TypeRegistry} {t : TypeEntry} {c : String}
    (ht : StemsFrom r t c) (hknown : PlainlyKnown cat r) (hc : r.Coherent) (hr : Traced cat r) :
    t.source = some (ClassName.relative c) ∨ Respelled cat r t := by
  obtain ⟨s, hs, hsame⟩ := Option.map_eq_some_iff.1 ht.source
  by_cases hplain : ClassName.relative s = s
  · exact .inl (by rw [hs, ← hsame, hplain])
  · obtain ⟨s', n, hs', hn⟩ := hc.known ht.registered
    obtain rfl := Option.some.inj (hs.symm.trans hs')
    have hkind := hr.classify_of_isMade ht.registered ht.made hs
    obtain ⟨a, ha, hparent⟩ := (hknown s ⟨n, hn⟩ hkind).resolve_left hplain
    exact .inr ⟨s, a, hs, hplain, ha, hparent⟩

/-- There is one type for a class or an enum, and every plain reference finds it, unless a child
spells the class with a leading backslash. Served classes are spelled plainly. -/
theorem one_type_of_class {doc : Document} {disk : Disk} {d : Draft} {c : String}
    (hchecked : doc.verdict.hasErrors = false) (h : Extracts (.ofDocument doc) disk d) :
    (∀ t u, StemsFrom d.types t c → StemsFrom d.types u c →
      t = u ∨ Respelled (.ofDocument doc) d.types t ∨ Respelled (.ofDocument doc) d.types u) ∧
    (∀ t, StemsFrom d.types t c → d.types.lookupSource (ClassName.relative c) = some t ∨
      Respelled (.ofDocument doc) d.types t ∨
      ∃ a ∈ (Catalog.ofDocument doc).resources,
        ClassName.relative c = Operations.listSource a) ∧
    ∀ a ∈ (Catalog.ofDocument doc).resources, doc.config.matchesNamespace a = true →
      ClassName.relative a = a := by
  obtain ⟨seeded, modeled, served, hp⟩ := h.phased
  have hplain := asksPlainly_of_resources hchecked
  have hown : OwnSources (.ofDocument doc) d.types := by
    rw [hp.types_eq]
    exact ((OwnSources.of_exactly hp.exactly).grows hp.extracted.growth).grows hp.bound.growth
  obtain ⟨hknown, -⟩ := (PlainlyKnown.lasting _).of_phased hplain hp
    (PlainlyKnown.of_exactly hp.exactly)
  have hspelled : ∀ t, StemsFrom d.types t c → t.source = some (ClassName.relative c) ∨
      Respelled (.ofDocument doc) d.types t :=
    fun t ht => ht.spelled hknown hown.coherent hp.traced
  refine ⟨fun t u ht hu => ?_, fun t ht => ?_, fun a ha hnamespace => ?_⟩
  · rcases hspelled t ht with hts | hts
    · rcases hspelled u hu with hus | hus
      · have hname := hown.unique ht.registered hu.registered ht.made hu.made (hts.trans hus.symm)
        exact .inl (Option.some.inj (ht.registered.symm.trans (hname ▸ hu.registered)))
      · exact .inr (.inr hus)
    · exact .inr (.inl hts)
  · rcases hspelled t ht with hts | hts
    · by_cases hlist : ∃ a ∈ (Catalog.ofDocument doc).resources,
          ClassName.relative c = Operations.listSource a
      · exact .inr (.inr hlist)
      · have hindexed := hown.indexed ht.registered ht.made hts fun a ha he => hlist ⟨a, ha, he⟩
        exact .inl (lookupSource_eq_some.2 ⟨_, hindexed, ht.registered⟩)
    · exact .inr (.inl hts)
  · obtain ⟨cs, hoperations⟩ := hp.operations
    obtain ⟨m, m', b, hb⟩ := (Yields.mapM_pass hoperations).exists_step
      (List.mem_filter.2 ⟨ha, hnamespace⟩)
    cases hshape : (Catalog.ofDocument doc).class? a with
    | some shape => exact hplain a ha shape hshape
    | none =>
      simp only [Operations.extractResource, hshape] at hb
      exact absurd hb Yields.not_throw

def workDecl : ClassDecl where
  className := "App\\Entity\\Work"
  exposures := [{ shortName := "Work" }]

def bookDecl (parent : String) : ClassDecl where
  className := "App\\Entity\\Book"
  parent := some parent
  fields := [
    { name := "sequel"
      types := [{ builtin := "object", className := some "\\App\\Entity\\Book" }] },
    { name := "sources"
      types := [{
        builtin := "array"
        collection := true
        value := some { builtin := "object", className := some "\\\\App\\Entity\\Work" } }] }]
  exposures := [{
    shortName := "Book"
    operations := [{
      type := some "Post", method := "POST"
      input := some "\\App\\Entity\\Work" }] }]

def works (parent : String) : Document where
  classes := [workDecl, bookDecl parent]

theorem extracts_works (parent : String)
    (h : (({} : Run).takeSteps (Pipeline.extraction (.ofDocument (works parent)) {})).1.isOk = true)
    (n source : String) (ht : ((extraction (.ofDocument (works parent)) {}).types.get? n).map
      (fun t => (t.name, t.isMade, t.source)) = some (n, true, some source)) :
    ∃ d t, Extracts (.ofDocument (works parent)) {} d ∧ t.name = n ∧ t.source = some source ∧
      StemsFrom d.types t source := by
  obtain ⟨t, ht, hfacts⟩ := Option.map_eq_some_iff.1 ht
  simp only [Prod.mk.injEq] at hfacts
  obtain ⟨rfl, hmade, hsource⟩ := hfacts
  exact ⟨_, t, extracts_extraction h, rfl, hsource, ht, hmade, by rw [hsource]; rfl⟩

/-- A work has one type if its child spells it plainly. -/
theorem work_has_one_type : (works "App\\Entity\\Work").verdict.hasErrors = false ∧
    ∃ d t, Extracts (.ofDocument (works "App\\Entity\\Work")) {} d ∧
      StemsFrom d.types t "App\\Entity\\Work" ∧
      d.types.lookupSource "App\\Entity\\Work" = some t ∧
      ∀ u, StemsFrom d.types u "\\App\\Entity\\Work" → t = u := by
  have hchecked : (works "App\\Entity\\Work").verdict.hasErrors = false := by decide +kernel
  obtain ⟨d, t, hd, -, -, ht⟩ := extracts_works "App\\Entity\\Work" (by decide +kernel) "Work"
    "App\\Entity\\Work" (by decide +kernel)
  have hspelled : ∀ u, ¬Respelled (.ofDocument (works "App\\Entity\\Work")) d.types u := by
    rintro u ⟨s, a, -, hs, -, shape, hshape, hparent⟩
    obtain ⟨hmem, -⟩ := Catalog.mem_classes_of_class? hshape
    have hparents : ∀ shape ∈ (works "App\\Entity\\Work").classes, ∀ s,
        shape.parent = some s → ClassName.relative s = s := by
      intro shape hmem s hs
      simp only [works, List.mem_cons, List.not_mem_nil, or_false] at hmem
      rcases hmem with rfl | rfl
      · cases hs
      · obtain rfl := Option.some.inj hs
        decide
    exact hs (hparents shape hmem s hparent)
  obtain ⟨hone, hfound, -⟩ := one_type_of_class (c := "App\\Entity\\Work") hchecked hd
  have hplain : ClassName.relative "App\\Entity\\Work" = "App\\Entity\\Work" := by decide
  refine ⟨hchecked, d, t, hd, ht, ?_, fun u hu => ?_⟩
  · rcases hfound t ht with hl | hl | ⟨a, ha, hlist⟩
    · rwa [hplain] at hl
    · exact absurd hl (hspelled t)
    · have hnone : ∀ a ∈ (Catalog.ofDocument (works "App\\Entity\\Work")).resources,
          ClassName.relative "App\\Entity\\Work" ≠ Operations.listSource a := by decide +kernel
      exact absurd hlist (hnone a ha)
  · have hu' : StemsFrom d.types u "App\\Entity\\Work" := ⟨hu.registered, hu.made, hu.source⟩
    rcases hone t u ht hu' with hsame | hl | hl
    · exact hsame
    · exact absurd hl (hspelled t)
    · exact absurd hl (hspelled u)

/-- A work has two types if its child spells it with a leading backslash. -/
theorem work_has_two_types : (works "\\App\\Entity\\Work").verdict.hasErrors = false ∧
    ∃ d t u, Extracts (.ofDocument (works "\\App\\Entity\\Work")) {} d ∧
      StemsFrom d.types t "App\\Entity\\Work" ∧ StemsFrom d.types u "App\\Entity\\Work" ∧
      t ≠ u := by
  have hextracts : (({} : Run).takeSteps
      (Pipeline.extraction (.ofDocument (works "\\App\\Entity\\Work")) {})).1.isOk = true := by
    decide +kernel
  obtain ⟨d, t, hd, hname, -, ht⟩ := extracts_works "\\App\\Entity\\Work" hextracts "Work"
    "App\\Entity\\Work" (by decide +kernel)
  obtain ⟨d', u, hd', hname', -, hu⟩ := extracts_works "\\App\\Entity\\Work" hextracts
    "EntityWork" "\\App\\Entity\\Work" (by decide +kernel)
  obtain rfl := hd.eq_extraction.trans hd'.eq_extraction.symm
  refine ⟨by decide +kernel, d, t, u, hd, ht, ⟨hu.registered, hu.made, hu.source⟩, ?_⟩
  rintro rfl
  exact absurd (hname.symm.trans hname') (by decide)

end HydraClient
