import HydraClient.Proofs.Completeness
import HydraClient.Proofs.Heads

/-! # Classes that extraction reaches

After the extraction of a class, every described class that it leads to has an entry with all of its
fields, and everything that the entry refers to is written. A description that goes by the source of
a base type is lost to that type, and a class whose extraction has failed keeps the part of an entry
that it had.
-/
namespace HydraClient

open Metadata TypeRegistry

namespace Model

variable {cat : Catalog} {r : TypeRegistry} {shape : ClassDecl} {t : TypeEntry} {c n : String}

/-- A class leads to its parent and to the classes of its exposed fields, if they are described. -/
inductive Leads (cat : Catalog) (c : String) : String → Prop where
  | parent {shape : ClassDecl} {n : String} : cat.class? c = some shape →
      shape.parent = some n → n ≠ "" → cat.classify n = .model → Leads cat c n
  | field {shape : ClassDecl} {f : Field} {form : FieldType} {n : String} :
      cat.class? c = some shape → f ∈ shape.fields → f.isExposed = true → form ∈ f.types →
      referred? form = some n → cat.classify n = .model → Leads cat c n

/-- The entry of a class that has everything that the description asks for. -/
structure Complete (cat : Catalog) (r : TypeRegistry) (shape : ClassDecl) (t : TypeEntry) :
    Prop where
  properties : t.properties.keys = (shape.fields.filter (·.isExposed)).map (·.name)
  supers : ∀ n ∈ t.supers, n ≠ "HydraItem" → r.Renders n
  parent : ∀ n, shape.parent = some n → n ≠ "" → cat.classify n = .model →
    ∃ p, r.lookupSource n = some p ∧ p.name ∈ t.supers
  related : ∀ p ∈ t.properties.values, ∀ n, p.related = some n → r.Renders n
  enumName : ∀ p ∈ t.properties.values, ∀ n, p.enumName = some n → r.Renders n
  union : ∀ f ∈ shape.fields, f.isExposed = true → ∃ p, t.properties.get? f.name = some p ∧
    p.union = .ofTokens (f.types.flatMap (tokensOf cat r))
  relation : ∀ f ∈ shape.fields, f.isExposed = true → ∀ form ∈ f.types, ∀ n target,
    referred? form = some n → cat.class? n = some target → ∃ u, r.lookupSource n = some u ∧
      u.name ∈ alternatives cat r n ∧
      (reference u.name ∈ alternatives cat r n ↔ target.exposures ≠ [])

theorem reference_ne (n : String) : reference n ≠ n := fun h => by
  have hlength := congrArg String.length h
  simp only [reference, String.length_append] at hlength
  have : ("HydraIri<" : String).length = 9 := rfl
  omega

theorem reference_mem_alternatives (hc : cat.class? c = some shape)
    (ht : r.lookupSource c = some t) : t.name ∈ alternatives cat r c ∧
      (reference t.name ∈ alternatives cat r c ↔ shape.exposures ≠ []) := by
  unfold alternatives
  simp only [Catalog.classify_eq_model_iff.2 ⟨shape, hc⟩, ht, hc, Option.any_some]
  cases he : shape.exposures <;>
    simp [ClassDecl.isAddressable, he, reference_ne]

theorem Standing.complete (h : Standing cat [] r) (hc : cat.class? c = some shape)
    (ht : r.lookupSource c = some t) : Complete cat r shape t := by
  have hfilled := h.filled hc ht (by simp)
  have hvalues : ∀ p ∈ t.properties.values, ∃ f : Field, Typed cat r f.types p := by
    intro p hp
    obtain ⟨k, hk⟩ := OrderedMap.mem_values_iff.1 hp
    have hkey : k ∈ t.properties.keys := OrderedMap.mem_keys_iff.2 ⟨p, hk⟩
    rw [hfilled.properties] at hkey
    obtain ⟨f, hf, rfl⟩ := List.mem_map.1 hkey
    obtain ⟨hf, hexposed⟩ := List.mem_filter.1 hf
    obtain ⟨q, hq, htyped⟩ := hfilled.typed f hf hexposed
    obtain rfl := Option.some.inj (hk.symm.trans hq)
    exact ⟨f, htyped⟩
  refine ⟨hfilled.properties, fun n hn hne => (hfilled.supers n hn).resolve_left hne,
    hfilled.parent, ?_, ?_, ?_, ?_⟩
  · intro p hp n hn
    obtain ⟨f, htyped⟩ := hvalues p hp
    exact htyped.related n hn
  · intro p hp n hn
    obtain ⟨f, htyped⟩ := hvalues p hp
    exact htyped.enumName n hn
  · intro f hf hexposed
    obtain ⟨p, hp, htyped⟩ := hfilled.typed f hf hexposed
    exact ⟨p, hp, htyped.union⟩
  · intro f hf hexposed form hform n target hn htarget
    obtain ⟨p, -, htyped⟩ := hfilled.typed f hf hexposed
    obtain ⟨u, hu⟩ := htyped.settled form hform n hn
      (.inl (Catalog.classify_eq_model_iff.2 ⟨_, htarget⟩))
    exact ⟨u, hu, reference_mem_alternatives htarget hu⟩

theorem Standing.leads (h : Standing cat [] r) (ht : ∃ t, r.lookupSource c = some t)
    (hl : Leads cat c n) : ∃ u, r.lookupSource n = some u := by
  obtain ⟨t, ht⟩ := ht
  cases hl with
  | parent hc hp hne hm =>
    obtain ⟨p, hl, -⟩ := (h.filled hc ht (by simp)).parent n hp hne hm
    exact ⟨p, hl⟩
  | field hc hf hexposed hform hn hm =>
    obtain ⟨p, -, htyped⟩ := (h.filled hc ht (by simp)).typed _ hf hexposed
    exact htyped.settled _ hform n hn (.inl hm)

theorem Standing.reaches (h : Standing cat [] r) (hc : cat.class? c = some shape)
    (ht : r.lookupSource c = some t) (hn : Relation.ReflTransGen (Leads cat) c n) :
    ∃ target u, cat.class? n = some target ∧ r.lookupSource n = some u ∧
      Complete cat r target u := by
  have hknown : (∃ target, cat.class? n = some target) ∧ ∃ u, r.lookupSource n = some u := by
    induction hn with
    | refl => exact ⟨⟨shape, hc⟩, t, ht⟩
    | tail _ hl ih =>
      refine ⟨?_, h.leads ih.2 hl⟩
      cases hl with
      | parent _ _ _ hm | field _ _ _ _ _ hm => exact Catalog.classify_eq_model_iff.1 hm
  obtain ⟨⟨target, htarget⟩, u, hu⟩ := hknown
  exact ⟨target, u, htarget, hu, h.complete htarget hu⟩

end Model

open Model

/-- No class goes by the source of a base type, and no enum by that of a word of the language. -/
structure Catalog.ClearOfBaseTypes (cat : Catalog) : Prop where
  classes : ∀ t ∈ BaseTypes.all cat.config.hydraStart, ∀ c, t.source = some c →
    cat.class? c = none
  enums : ∀ n ∈ BaseTypes.builtinNames, cat.classify ("@builtin/" ++ n) ≠ .enumeration

theorem Catalog.ClearOfBaseTypes.standing {cat : Catalog} {r : TypeRegistry}
    (h : cat.ClearOfBaseTypes) (hr : BaseTypes.Exactly (BaseTypes.all cat.config.hydraStart) r) :
    Standing cat [] r := by
  have hbase : ∀ {c t}, r.lookupSource c = some t →
      t ∈ BaseTypes.all cat.config.hydraStart ∧ t.source = some c := fun ht => by
    obtain ⟨-, hget, hs⟩ := hr.coherent.of_lookupSource ht
    exact ⟨hr.among hget, hs⟩
  have hnone : ∀ {c shape t}, cat.class? c = some shape → r.lookupSource c ≠ some t := by
    intro c shape t hc ht
    obtain ⟨hmem, hs⟩ := hbase ht
    rw [h.classes t hmem c hs] at hc
    cases hc
  refine ⟨⟨hr.coherent, fun hc ht => absurd ht (hnone hc), ?_⟩,
    fun hc ht _ => absurd ht (hnone hc)⟩
  intro c t hc ht
  obtain ⟨hmem, hs⟩ := hbase ht
  rcases (BaseTypes.shared_of_mem hmem).filed with hfile | hrendered
  · obtain ⟨n, hn, rfl⟩ := BaseTypes.eq_builtin_of_fileless hmem hfile
    obtain rfl := Option.some.inj hs
    exact absurd hc (h.enums n hn)
  · exact hrendered

/-- Extraction is the recursion over classes and makes no call below a bound. Whatever was extracted
before, it leaves a complete entry for every class that it reaches. -/
theorem extraction_complete {doc : Document} {disk : Disk} {seeded s : Draft}
    {earlier : List String} {ts : List TypeEntry} {c : String} {shape : ClassDecl}
    (hdistinct : doc.FieldsDistinct) (hclear : (Catalog.ofDocument doc).ClearOfBaseTypes)
    (hseed : Yields (BaseTypes.seed doc.config disk) {} ⟨⟩ seeded)
    (hearlier : Yields (earlier.mapM (extract (.ofDocument doc))) seeded ts s)
    (hc : (Catalog.ofDocument doc).class? c = some shape) :
    extract (.ofDocument doc) = visitOnce (.ofDocument doc) (extract (.ofDocument doc)) ∧
    (∀ depth unfinished, depthBound (.ofDocument doc) ≤ depth →
      (visitOnce (.ofDocument doc))^[depth] unfinished = extract (.ofDocument doc)) ∧
    ∀ t s', Yields (extract (.ofDocument doc) c) s t s' →
      s'.types.lookupSource c = some t ∧
      ∀ n, Relation.ReflTransGen (Leads (.ofDocument doc)) c n →
        ∃ target u, (Catalog.ofDocument doc).class? n = some target ∧
          s'.types.lookupSource n = some u ∧
          Complete (.ofDocument doc) s'.types target u := by
  refine ⟨extract_eq_visitOnce, fun depth unfinished hdepth => iterate_eq_extract hdepth _, ?_⟩
  intro t s' h
  have hshapes : ∀ c shape, (Catalog.ofDocument doc).class? c = some shape →
      (shape.fields.map (·.name)).Nodup := fun _ shape hc =>
    hdistinct shape (Catalog.mem_classes_of_class? hc).1
  have hextract (c : String) :
      Alike (fun s => Standing (.ofDocument doc) [] s.types)
        (fun s => Standing (.ofDocument doc) [] s.types) (extract (.ofDocument doc) c)
        (extract (.ofDocument doc) c) := standing_of_extractWithin hshapes _ [] c
  have hseeded : Standing (.ofDocument doc) [] seeded.types :=
    hclear.standing (BaseTypes.yields_seed hseed).1
  have hs : Standing (.ofDocument doc) [] s.types := by
    refine (Yields.mapM_pass hearlier).invariant
      (I := fun m => Standing (.ofDocument doc) [] m.types) hseeded ?_
    rintro c - m m' hm ⟨u, hu⟩
    exact (hextract c m hm).2 u m' hu
  have hs' : Standing (.ofDocument doc) [] s'.types := (hextract c s hs).2 t s' h
  obtain ⟨-, hl⟩ := extract_finds c hs.coherent h
  exact ⟨hl, fun n hn => hs'.reaches hc hl hn⟩

def commentList : FieldType where
  builtin := "array"
  collection := true
  keyType := some "int"
  value := some { builtin := "object", className := some "App\\Entity\\Comment" }

def commentsField : Field where
  name := "comments"
  types := [commentList]

def topicDecl : ClassDecl where
  className := "App\\Entity\\Topic"
  fields := [commentsField]
  exposures := [{ shortName := "Topic" }]

def commentDecl : ClassDecl where
  className := "App\\Entity\\Comment"
  parent := some "App\\Entity\\Comment"
  fields := [
    { name := "topic"
      types := [{ builtin := "object", className := some "App\\Entity\\Topic" }] },
    { name := "state"
      types := [{ builtin := "object", className := some "App\\Enum\\State" }] }]

/-- Topics and comments refer to each other, and comments have themselves for a parent. -/
def forum : Document where
  classes := [topicDecl, commentDecl, { className := "App\\Entity\\Label" }]
  enums := [{ className := "App\\Enum\\State", cases := [{ name := "Open" }] }]

theorem forum_clear : (Catalog.ofDocument forum).ClearOfBaseTypes where
  classes t ht c hs := by
    have hnone : ∀ s ∈ (BaseTypes.all (Catalog.ofDocument forum).config.hydraStart).map (·.source),
        s.all fun c => ((Catalog.ofDocument forum).class? c).isNone := by decide +kernel
    have hclass := hnone _ (List.mem_map_of_mem ht)
    rw [hs] at hclass
    exact Option.isNone_iff_eq_none.1 hclass
  enums := by decide +kernel

/-- Another class is extracted first. The comments of a topic are reached through the topic. -/
theorem comments_complete : forum.FieldsDistinct ∧
    (Catalog.ofDocument forum).ClearOfBaseTypes ∧ ∃ seeded ts s t s',
      Yields (BaseTypes.seed forum.config {}) {} ⟨⟩ seeded ∧
      Yields (["App\\Entity\\Label"].mapM (extract (.ofDocument forum))) seeded ts s ∧
      Yields (extract (.ofDocument forum) "App\\Entity\\Topic") s t s' ∧
      ∃ u, s'.types.lookupSource "App\\Entity\\Comment" = some u ∧
        Complete (.ofDocument forum) s'.types commentDecl u := by
  have hdistinct : forum.FieldsDistinct := by
    unfold Document.FieldsDistinct
    decide
  have htopic : (Catalog.ofDocument forum).class? "App\\Entity\\Topic" = some topicDecl := rfl
  have hcomment : (Catalog.ofDocument forum).class? "App\\Entity\\Comment" = some commentDecl := rfl
  obtain ⟨t, s', hrun, -⟩ := Yields.exists_of_test (p := fun _ _ => true)
    (x := do
      BaseTypes.seed forum.config {}
      let _ ← ["App\\Entity\\Label"].mapM (extract (.ofDocument forum))
      extract (.ofDocument forum) "App\\Entity\\Topic")
    (s := {}) (by decide +kernel)
  obtain ⟨⟨⟩, seeded, hseed, hrun⟩ := Yields.bind_iff.1 hrun
  obtain ⟨ts, s, hlabel, htake⟩ := Yields.bind_iff.1 hrun
  have hleads : Leads (.ofDocument forum) "App\\Entity\\Topic" "App\\Entity\\Comment" :=
    .field htopic (List.mem_singleton_self commentsField) (by decide)
      (List.mem_singleton_self commentList) (by decide) (by decide)
  obtain ⟨-, -, hextracted⟩ := extraction_complete hdistinct forum_clear hseed hlabel htopic
  obtain ⟨-, hreached⟩ := hextracted t s' htake
  obtain ⟨target, u, htarget, hu, hcomplete⟩ := hreached _ (.single hleads)
  obtain rfl := Option.some.inj (hcomment.symm.trans htarget)
  exact ⟨hdistinct, forum_clear, seeded, ts, s, t, s', hseed, hlabel, htake, u, hu, hcomplete⟩

def topicOn (className : String) : ClassDecl where
  className := "App\\Entity\\Topic"
  fields := [{ name := "state", types := [{ builtin := "object", className := some className }] }]

def itemDecl : ClassDecl where
  className := "@base/HydraItem"
  fields := [{ name := "state", types := [{ builtin := "string" }] }]

def itemized : Document where
  classes := [itemDecl]

def worded : Document where
  classes := [topicOn "@builtin/string"]
  enums := [{ className := "@builtin/string", cases := [{ name := "Open" }] }]

def stray : Document where
  classes := [topicOn "App\\Enum\\State"]

def baseDraft (doc : Document) : Draft := (outcome (BaseTypes.seed doc.config {}) {}).2

/-- The envelope is taken for the class, the word is taken for the enum, and the topic is found as
its failed extraction left it, without its state. -/
theorem entries_incomplete :
    (∃ t s', Yields (extract (.ofDocument itemized) "@base/HydraItem") (baseDraft itemized) t s' ∧
      ¬Complete (.ofDocument itemized) s'.types itemDecl t) ∧
    (∃ t s', Yields (extract (.ofDocument worded) "App\\Entity\\Topic") (baseDraft worded) t s' ∧
      ¬Complete (.ofDocument worded) s'.types (topicOn "@builtin/string") t) ∧
    ∃ e s, outcome (extract (.ofDocument stray) "App\\Entity\\Topic") (baseDraft stray) =
        (.error e, s) ∧
      ∃ t s', Yields (extract (.ofDocument stray) "App\\Entity\\Topic") s t s' ∧
        ¬Complete (.ofDocument stray) s'.types (topicOn "App\\Enum\\State") t := by
  refine ⟨?_, ?_, ?_⟩
  · obtain ⟨t, s', h, hkeys⟩ := Yields.exists_of_test
      (x := extract (.ofDocument itemized) "@base/HydraItem") (s := baseDraft itemized)
      (p := fun t _ => t.properties.keys != ["state"]) (by decide +kernel)
    refine ⟨t, s', h, fun hcomplete => ?_⟩
    simp [hcomplete.properties, itemDecl, Field.isExposed] at hkeys
  · obtain ⟨t, s', h, henum⟩ := Yields.exists_of_test
      (x := extract (.ofDocument worded) "App\\Entity\\Topic") (s := baseDraft worded)
      (p := fun t s' => t.properties.values.any (·.enumName == some "string") &&
        ((s'.types.get? "string").all fun u => !u.isRendered)) (by decide +kernel)
    rw [Bool.and_eq_true, List.any_eq_true] at henum
    obtain ⟨⟨q, hq, hname⟩, hword⟩ := henum
    refine ⟨t, s', h, fun hcomplete => ?_⟩
    obtain ⟨u, hu, hrendered⟩ := hcomplete.enumName q hq "string" (by simpa using hname)
    simp [hu, hrendered] at hword
  · have hfails : (outcome (extract (.ofDocument stray) "App\\Entity\\Topic")
        (baseDraft stray)).1.isOk = false := by decide +kernel
    obtain ⟨t, s', h, hkeys⟩ := Yields.exists_of_test
      (x := extract (.ofDocument stray) "App\\Entity\\Topic")
      (s := (outcome (extract (.ofDocument stray) "App\\Entity\\Topic") (baseDraft stray)).2)
      (p := fun t _ => t.properties.keys != ["state"]) (by decide +kernel)
    obtain ⟨e, he⟩ := exists_outcome_error hfails
    refine ⟨e, _, he, t, s', h, fun hcomplete => ?_⟩
    simp [hcomplete.properties, topicOn, Field.isExposed] at hkeys
end HydraClient
