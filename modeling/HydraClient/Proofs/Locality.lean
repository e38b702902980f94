import HydraClient.Proofs.EndpointScopes
import HydraClient.Proofs.FileNames
import HydraClient.Proofs.FramedFiles
import HydraClient.Proofs.Joining
import HydraClient.Proofs.Lookup

/-! # A class that joins a document

A served class that nobody mentions, and that refers to no other class, may be put anywhere into a
document. What is generated for the others stays as it is, and the class brings an interface and an
endpoint of its own.
-/
namespace HydraClient

open Metadata TypeRegistry

theorem OrderedMap.get?_ofList_around {α β : Type} [DecidableEq α] {l l' : List (α × β)} {e : α × β}
    {k : α} (h : e.1 ≠ k) : (ofList (l ++ e :: l')).get? k = (ofList (l ++ l')).get? k := by
  simp [get?_ofList, List.find?_append, h]

namespace Metadata

def FieldType.mentions (t : FieldType) : List String :=
  t.className.toList ++ (t.value.bind (·.className)).toList

def Operation.mentions (o : Operation) : List String := o.input.toList ++ o.output.toList

def Exposure.mentions (e : Exposure) : List String :=
  e.uriVariables.filterMap (·.fromClass) ++ e.operations.flatMap (·.mentions)

/-- The classes that a class refers to: its parent, those of its fields, those that its paths lead
to and those that its operations take and give. -/
def ClassDecl.mentions (c : ClassDecl) : List String :=
  c.parent.toList ++ c.fields.flatMap (·.types.flatMap (·.mentions)) ++
    c.exposures.flatMap (·.mentions)

def ClassDecl.guest (c : ClassDecl) (config : Config) : Guest where
  source := c.className
  name := (Model.nameCandidates config c).headD ""

/-- The document with one class more, at any place among the others. -/
def Document.withClass (doc : Document) (k : Nat) (new : ClassDecl) : Document :=
  { doc with classes := doc.classes.take k ++ new :: doc.classes.drop k }

theorem FieldType.value_of_formOf {t value : FieldType}
    (h : Model.formOf t = .collection value) : t.value = some value := by
  unfold Model.formOf at h
  repeat' split at h
  all_goals cases h
  assumption

theorem FieldType.className_of_formOf {t : FieldType} {c : String}
    (h : Model.formOf t = .object c) : t.className = some c := by
  unfold Model.formOf at h
  repeat' split at h
  all_goals cases h
  assumption

theorem FieldType.mem_mentions_of_referred {t : FieldType} {c : String}
    (h : Model.referred? t = some c) : ∃ m ∈ t.mentions, ClassName.relative m = c := by
  unfold Model.referred? at h
  split at h
  · rename_i value hform
    obtain ⟨m, hm, hrelative⟩ := Option.map_eq_some_iff.1 h
    exact ⟨m, by simp [mentions, value_of_formOf hform, hm], hrelative⟩
  · rename_i m hform
    exact ⟨m, by simp [mentions, className_of_formOf hform], Option.some.inj h⟩
  · cases h

end Metadata

namespace Metadata.Document

variable {doc : Document} {k : Nat} {new c : ClassDecl}

/-- No class of the document refers to the one of the name, however it is spelled. -/
def Omits (doc : Document) (className : String) : Prop :=
  ∀ c ∈ doc.classes, ∀ m ∈ c.mentions, ClassName.relative m ≠ ClassName.relative className

instance (doc : Document) (className : String) : Decidable (doc.Omits className) :=
  inferInstanceAs (Decidable (∀ c ∈ doc.classes, ∀ m ∈ c.mentions, _))

theorem mem_withClass : c ∈ (doc.withClass k new).classes ↔ c = new ∨ c ∈ doc.classes := by
  conv_rhs => rw [← List.take_append_drop k doc.classes]
  simp only [withClass, List.mem_append, List.mem_cons]
  tauto

theorem ne_of_distinct_withClass (h : (doc.withClass k new).Distinct) (hc : c ∈ doc.classes) :
    ClassName.relative c.className ≠ ClassName.relative new.className := by
  have hclasses := h.classes
  rw [withClass, List.map_append, List.map_cons, List.nodup_middle, ← List.map_append,
    List.take_append_drop, List.nodup_cons] at hclasses
  exact fun heq => hclasses.1 (List.mem_map.2 ⟨c, hc, heq⟩)

end Metadata.Document

namespace Guest

variable {doc : Document} {k : Nat} {new c : ClassDecl} {disk : Disk} {d d' : Draft}

theorem joins_withClass (hd : doc.Distinct) (hd' : (doc.withClass k new).Distinct)
    (hplain : ClassName.relative new.className = new.className)
    (homits : doc.Omits new.className) :
    (new.guest doc.config).Joins (.ofDocument doc) (.ofDocument (doc.withClass k new)) := by
  have hother : ∀ {name shape m}, (Catalog.ofDocument doc).class? name = some shape →
      m ∈ shape.mentions → ClassName.relative m ≠ new.className := fun hshape hm =>
    hplain ▸ homits _ (Catalog.mem_classes_of_class? hshape).1 _ hm
  refine ⟨rfl, rfl, rfl, fun _ => rfl, fun {name} hne => ?_, ?_, ?_, ?_, ?_, ?_⟩
  · have hsplit : doc.classes.map (fun c => (c.className, c)) =
        (doc.classes.take k).map (fun c => (c.className, c)) ++
          (doc.classes.drop k).map fun c => (c.className, c) := by
      rw [← List.map_append, List.take_append_drop]
    simp only [Catalog.class?, Catalog.ofDocument, Document.withClass, List.map_append,
      List.map_cons]
    rw [OrderedMap.get?_ofList_around (Ne.symm hne), ← hsplit]
  · rw [Catalog.size_ofDocument hd, Catalog.size_ofDocument hd']
    simp only [Document.withClass, List.length_append, List.length_cons, List.length_take,
      List.length_drop]
    omega
  · intro name shape p hshape hp
    exact hother hshape (by simp [ClassDecl.mentions, hp])
  · intro name shape hshape f hf form hform a ha
    obtain ⟨m, hm, rfl⟩ := FieldType.mem_mentions_of_referred ha
    refine hother hshape (List.mem_append_left _ (List.mem_append_right _ ?_))
    exact List.mem_flatMap.2 ⟨f, hf, List.mem_flatMap.2 ⟨form, hform, hm⟩⟩
  · intro name shape hshape e he o ho a ha
    refine hother hshape (List.mem_append_right _ (List.mem_flatMap.2 ⟨e, he, ?_⟩))
    refine List.mem_append_right _ (List.mem_flatMap.2 ⟨o, ho, ?_⟩)
    simpa [Operation.mentions] using ha
  · intro name shape hshape e he u hu a ha
    refine hother hshape (List.mem_append_right _ (List.mem_flatMap.2 ⟨e, he, ?_⟩))
    exact List.mem_append_left _ (List.mem_filterMap.2 ⟨u, hu, ha⟩)

theorem enters_withClass (hd : doc.Distinct) (hd' : (doc.withClass k new).Distinct)
    (hplain : ClassName.relative new.className = new.className)
    (homits : doc.Omits new.className) (hstandalone : new.Standalone)
    (haddressable : new.isAddressable = true)
    (hserved : doc.config.matchesNamespace new.className = true) :
    (new.guest doc.config).Enters (.ofDocument doc) (.ofDocument (doc.withClass k new)) new where
  joins := joins_withClass hd hd' hplain homits
  stands := by
    refine ⟨?_, hstandalone, rfl⟩
    have hmem : new ∈ (doc.withClass k new).classes := Document.mem_withClass.2 (.inl rfl)
    exact (Catalog.class?_of_described hd' hmem rfl).trans (if_pos hplain)
  plain := hplain
  listed := by
    rw [Catalog.resources_of_distinct hd, Catalog.resources_of_distinct hd']
    refine ⟨(((doc.classes.take k).filter (·.isAddressable)).map (·.className)).filter
        doc.config.matchesNamespace,
      (((doc.classes.drop k).filter (·.isAddressable)).map (·.className)).filter
        doc.config.matchesNamespace, ?_, ?_⟩
    · rw [← List.filter_append, ← List.map_append, ← List.filter_append, List.take_append_drop]
      rfl
    · simp only [Document.withClass, Catalog.ofDocument, List.filter_append, List.map_append,
        List.filter_cons_of_pos haddressable, List.map_cons, List.filter_cons_of_pos hserved]
      rfl
  others c hc := by
    rw [Catalog.resources_of_distinct hd] at hc
    obtain ⟨shape, hshape, rfl⟩ := List.mem_map.1 hc
    exact (Document.ne_of_distinct_withClass hd' (List.mem_filter.1 hshape).1).trans_eq hplain

end Guest

namespace Generates

variable {doc : Document} {k : Nat} {new c : ClassDecl} {disk : Disk} {d d' : Draft}

theorem mem_keys_of_type {n file : String} {t : TypeEntry} (h : Generates doc disk d)
    (ht : d.types.get? n = some t) (hf : t.file = some file) (hne : file ≠ "") :
    file ∈ d.files.assemble.keys := by
  obtain ⟨_, _, _, hphased, hr⟩ := h.rendered
  have htraced : Traced (.ofDocument doc) d.types := by
    rw [hr.types]
    exact hphased.traced
  obtain ⟨text, htext, -⟩ := hr.exported_of_type ht (htraced.isRendered_of_file ht hf hne) hf
  exact OrderedMap.mem_keys_iff.2 ⟨text, htext⟩

theorem relative_of_served (h : Generates doc disk d) (hc : c ∈ doc.classes)
    (haddressable : c.isAddressable = true)
    (hserved : doc.config.matchesNamespace c.className = true) :
    ClassName.relative c.className = c.className := by
  have hdistinct := Check.distinct h.checked
  obtain ⟨_, _, _, _, hphased, -⟩ := h.composed
  obtain ⟨cs, hoperations⟩ := hphased.operations
  have hmem : c.className ∈ (Catalog.ofDocument doc).resources.filter
      doc.config.matchesNamespace := by
    rw [Catalog.resources_of_distinct hdistinct]
    exact List.mem_filter.2
      ⟨List.mem_map_of_mem (List.mem_filter.2 ⟨hc, haddressable⟩), hserved⟩
  obtain ⟨m, m', _, htaken⟩ := (Yields.mapM_pass hoperations).exists_step hmem
  by_contra hspelled
  have hclass := Catalog.class?_of_described hdistinct hc rfl
  rw [if_neg hspelled] at hclass
  unfold Operations.extractResource at htaken
  rw [hclass] at htaken
  exact Yields.not_throw htaken

end Generates

/-- A served class that refers to no other one, and of which a document has neither a mention nor a
type or file of its names. -/
structure Newcomer (doc : Document) (new : ClassDecl) (d : Draft) : Prop where
  standalone : new.Standalone
  addressable : new.isAddressable = true
  served : doc.config.matchesNamespace new.className = true
  omitted : doc.Omits new.className
  named : ∀ n, (new.guest doc.config).Names n → d.types.get? n = none
  filed : ∀ file, (new.guest doc.config).Files file → file ∉ d.files.assemble.keys

variable {doc : Document} {k : Nat} {new : ClassDecl} {disk : Disk} {d d' : Draft}

/-- A newcomer may join a document at any place. As long as nothing is registered under its class
and under the query parameters of its class, every file of the document stays as it is, an interface
of the newcomer is added, and but for an endpoint of it nothing else is. -/
theorem resource_locality (hd : Generates doc disk d)
    (hd' : Generates (doc.withClass k new) disk d') (hnew : Newcomer doc new d)
    (hsources : ∀ c, (new.guest doc.config).Sources c → d.types.sources.get? c = none) :
    (∀ file text, d.files.assemble.get? file = some text →
      d'.files.assemble.get? file = some text) ∧
    "interfaces/" ++ (new.guest doc.config).name ∈ d'.files.assemble.keys ∧
    ∀ file ∈ d'.files.assemble.keys, file ∈ d.files.assemble.keys ∨
      (new.guest doc.config).Files file := by
  obtain ⟨seeded, modeled, served, d₀, hphased, hcomposed⟩ := hd.composed
  obtain ⟨seeded', modeled', served', d₀', hphased', hcomposed'⟩ := hd'.composed
  have hplain := hd'.relative_of_served (Document.mem_withClass.2 (.inl rfl)) hnew.addressable
    hnew.served
  have henters := Guest.enters_withClass (Check.distinct hd.checked) (Check.distinct hd'.checked)
    hplain hnew.omitted hnew.standalone hnew.addressable hnew.served
  have habsent : (new.guest doc.config).Absent d.types := ⟨hnew.named _, hsources _⟩
  rw [hcomposed.types, hphased.types_eq] at habsent
  have hbeside := henters.beside hphased hphased' habsent
  have hsame : ∀ file, ¬(new.guest doc.config).Files file →
      d'.files.assemble.get? file = d.files.assemble.get? file := fun file hfile =>
    FileSet.get?_assemble_congr (hbeside.fragments_eq hphased.coherent_served
      hphased.closed_served henters.joins hphased.helpers hphased'.helpers hcomposed hcomposed'
      hfile)
  refine ⟨?_, ?_, ?_⟩
  · intro file text htext
    have hfile := hnew.filed file
    rw [hsame file fun hown => hfile hown (OrderedMap.mem_keys_iff.2 ⟨text, htext⟩), htext]
  · obtain ⟨n, hn⟩ := hphased'.registered henters.mem_served
    obtain rfl := hbeside.hosts.index hn
    obtain ⟨t, ht, -⟩ := hphased'.coherent_served.sourced hn
    obtain ⟨-, -, hfile⟩ := hbeside.hosts.type ht
    rw [← hphased'.types_eq, ← hcomposed'.types] at ht
    exact hd'.mem_keys_of_type ht hfile (by simp)
  · intro file hfile
    refine or_iff_not_imp_right.2 fun hown => ?_
    obtain ⟨text, htext⟩ := OrderedMap.mem_keys_iff.1 hfile
    exact OrderedMap.mem_keys_iff.2 ⟨text, (hsame file hown).symm.trans htext⟩

theorem Rendered.mem_keys_of_endpoint {cat : Catalog} {d₀ : Draft} {c s file : String}
    (h : Rendered cat disk d₀ d)
    (hwritten : (bindingAt d₀ c s).any (fun p => p.1.file == file && p.2.isExposed) = true) :
    file ∈ d.files.assemble.keys := by
  obtain ⟨⟨e, b⟩, hat, hfacts⟩ := (Option.any_eq_true _ _).1 hwritten
  obtain ⟨he, hb⟩ := bindingAt_eq_some_iff.1 hat
  rw [Bool.and_eq_true, beq_iff_eq] at hfacts
  obtain ⟨rfl, hexposed⟩ := hfacts
  rw [← h.operations] at he
  obtain ⟨body, imports, hendpoint⟩ := Render.endpoint?_of_exposed hb hexposed
  obtain ⟨text, htext, -⟩ := h.exported_of_endpoint he hendpoint
    (Render.exports_symbol hendpoint hb hexposed)
  exact OrderedMap.mem_keys_iff.2 ⟨text, htext⟩

/-- The names that the class may take and the one of its query parameters are no names of types, and
no class of the document may take one of them. -/
def NamedApart (doc : Document) (new : ClassDecl) (r : TypeRegistry) : Prop :=
  ∀ n ∈ (new.guest doc.config).listName :: Model.nameCandidates doc.config new,
    (r.get? n).isNone = true ∧ ∀ c ∈ doc.classes, n ∉ Model.nameCandidates doc.config c

instance (doc : Document) (new : ClassDecl) (r : TypeRegistry) : Decidable (NamedApart doc new r) :=
  inferInstanceAs (Decidable (∀ n ∈ (new.guest doc.config).listName ::
    Model.nameCandidates doc.config new, _ ∧ _))

def authors (input : String) : Document where
  classes := [
    { className := input, fields := [{ name := "text", types := [{ builtin := "string" }] }] },
    { className := "App\\Entity\\Author"
      exposures := [{
        shortName := "Author"
        operations := [{ type := some "GetCollection" },
          { type := some "Post", method := "POST", input := some input }] }] }]

def noteDecl (className : String) : ClassDecl where
  className := className
  fields := [{ name := "text", types := [{ builtin := "string" }] }]
  exposures := [{ shortName := "Note", operations := [{ type := some "GetCollection" }] }]

theorem standalone_noteDecl {className : String} : (noteDecl className).Standalone := by
  constructor <;> simp [noteDecl, Model.scalar?]

def NoteJoins (input className : String) (k : Nat) : Prop :=
  (authors input).isGenerated = true ∧
    ((authors input).withClass k (noteDecl className)).isGenerated = true ∧
    (authors input).config.matchesNamespace className = true ∧
    (authors input).Omits className ∧
    NamedApart (authors input) (noteDecl className)
      (extraction (.ofDocument (authors input)) {}).types ∧
    ∀ file ∈ (extraction (.ofDocument (authors input)) {}).fileNames,
      ¬((noteDecl className).guest (authors input).config).Files file

instance (input className : String) (k : Nat) : Decidable (NoteJoins input className k) := by
  unfold NoteJoins
  infer_instance

structure NoteMet (input className : String) (k : Nat) (d d' : Draft) : Prop where
  before : Generates (authors input) {} d
  after : Generates ((authors input).withClass k (noteDecl className)) {} d'
  new : Newcomer (authors input) (noteDecl className) d
  apart : NamedApart (authors input) (noteDecl className) d.types

theorem NoteJoins.met {input className : String} {k : Nat} (h : NoteJoins input className k) :
    ∃ d d', NoteMet input className k d d' ∧
      Rendered (.ofDocument (authors input)) {} (extraction (.ofDocument (authors input)) {}) d ∧
      Rendered (.ofDocument ((authors input).withClass k (noteDecl className))) {}
        (extraction (.ofDocument ((authors input).withClass k (noteDecl className))) {}) d' := by
  obtain ⟨hdoc, hdoc', hserved, homits, hapart, hfiles⟩ := h
  obtain ⟨d, hd, -⟩ := exists_generates_of_isGenerated hdoc
  obtain ⟨d', hd', -⟩ := exists_generates_of_isGenerated hdoc'
  obtain ⟨_, _, _, -, hr⟩ := hd.rendered
  obtain ⟨_, _, _, -, hr'⟩ := hd'.rendered
  rw [← hr.types] at hapart
  refine ⟨d, d', ⟨hd, hd', ⟨standalone_noteDecl, rfl, hserved, homits, ?_, ?_⟩, hapart⟩, hr, hr'⟩
  · rintro n (rfl | rfl)
    · exact Option.isNone_iff_eq_none.1 (hapart _ (List.mem_cons_of_mem _ List.mem_cons_self)).1
    · exact Option.isNone_iff_eq_none.1 (hapart _ List.mem_cons_self).1
  · exact fun file hfile hkey => hfiles file (hr.mem_fileNames hkey) hfile

/-- A note leaves the texts of authors as they are. -/
theorem note_stays_apart : ∃ d d', NoteMet "App\\Entity\\Draft" "App\\Entity\\Note" 1 d d' ∧
    (∀ c, ((noteDecl "App\\Entity\\Note").guest {}).Sources c → d.types.sources.get? c = none) ∧
    (∀ file text, d.files.assemble.get? file = some text →
      d'.files.assemble.get? file = some text) ∧
    "interfaces/Note" ∈ d'.files.assemble.keys ∧
    ∀ file ∈ d'.files.assemble.keys, file ∈ d.files.assemble.keys ∨
      file = "interfaces/Note" ∨ file = "endpoint/Note" := by
  have hjoins : NoteJoins "App\\Entity\\Draft" "App\\Entity\\Note" 1 := by decide +kernel
  have hfree : ((extraction (.ofDocument (authors "App\\Entity\\Draft")) {}).types.sources.get?
      "App\\Entity\\Note").isNone = true ∧
      ((extraction (.ofDocument (authors "App\\Entity\\Draft")) {}).types.sources.get?
        "App\\Entity\\Note#list-params").isNone = true := by decide +kernel
  obtain ⟨d, d', hmet, hr, -⟩ := hjoins.met
  rw [← hr.types] at hfree
  have hsources : ∀ c, ((noteDecl "App\\Entity\\Note").guest {}).Sources c →
      d.types.sources.get? c = none := by
    rintro c (rfl | rfl)
    · exact Option.isNone_iff_eq_none.1 hfree.1
    · exact Option.isNone_iff_eq_none.1 hfree.2
  exact ⟨d, d', hmet, hsources, resource_locality hmet.before hmet.after hmet.new hsources⟩

/-- Query parameters are registered under the class that they belong to, followed by a mark. A note
whose query parameters come to stand under the name of a class takes the place of that class, and a
note that goes by the name of query parameters is itself replaced by them. -/
theorem notes_at_list_sources :
    (∃ d d', NoteMet "App\\Entity\\Note#list-params" "App\\Entity\\Note" 0 d d' ∧
      "interfaces/Note#list-params" ∈ d.files.assemble.keys ∧
      "interfaces/Note#list-params" ∉ d'.files.assemble.keys) ∧
    ∃ d d', NoteMet "App\\Entity\\Draft" "App\\Entity\\Author#list-params" 2 d d' ∧
      "endpoint/AuthorListParams" ∈ d'.files.assemble.keys ∧
      "endpoint/AuthorListParams" ∉ d.files.assemble.keys ∧
      ¬((noteDecl "App\\Entity\\Author#list-params").guest {}).Files
        "endpoint/AuthorListParams" := by
  constructor
  · have hjoins : NoteJoins "App\\Entity\\Note#list-params" "App\\Entity\\Note" 0 := by
      decide +kernel
    obtain ⟨d, d', hmet, hr, hr'⟩ := hjoins.met
    have hwritten : ((extraction (.ofDocument (authors "App\\Entity\\Note#list-params"))
        {}).types.get? "Note#list-params").map (·.file) =
          some (some "interfaces/Note#list-params") := by
      decide +kernel
    have hlost : "interfaces/Note#list-params" ∉ (extraction (.ofDocument
        ((authors "App\\Entity\\Note#list-params").withClass 0 (noteDecl "App\\Entity\\Note")))
        {}).fileNames := by decide +kernel
    rw [← hr.types] at hwritten
    obtain ⟨t, ht, hfile⟩ := Option.map_eq_some_iff.1 hwritten
    exact ⟨d, d', hmet, hmet.before.mem_keys_of_type ht hfile (by decide),
      fun hkey => hlost (hr'.mem_fileNames hkey)⟩
  · have hjoins : NoteJoins "App\\Entity\\Draft" "App\\Entity\\Author#list-params" 2 := by
      decide +kernel
    obtain ⟨d, d', hmet, hr, hr'⟩ := hjoins.met
    have hwritten : "endpoint/AuthorListParams" ∈ d'.files.assemble.keys :=
      hr'.mem_keys_of_endpoint (c := "App\\Entity\\Author#list-params") (s := "note")
        (by decide +kernel)
    have hnew : "endpoint/AuthorListParams" ∉
        (extraction (.ofDocument (authors "App\\Entity\\Draft")) {}).fileNames := by decide +kernel
    exact ⟨d, d', hmet, hwritten, fun hkey => hnew (hr.mem_fileNames hkey), by decide⟩

end HydraClient
