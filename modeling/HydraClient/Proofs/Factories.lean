import HydraClient.Proofs.Generation
import HydraClient.Proofs.Heads
import HydraClient.Proofs.Reading

/-! # Factories

A factory writes the defaults of all ancestors, while the imports of its file are recorded for the
fields that the class itself lists. An enum of a default is in scope exactly if the file declares it
or a listed field records it, so that the default of an ancestor may be out of scope.
-/
namespace HydraClient

open Metadata TypeRegistry

/-- The factory of an interface writes a case of an enum as a default. -/
structure PrintsCase (r : TypeRegistry) (file : String) (t u : TypeEntry) : Prop where
  registered : r.get? t.name = some t
  hasFactory : t.hasFactory = true
  filed : t.file = some file
  enum : r.get? u.name = some u
  kind : u.kind = .nativeEnum
  printed : ∃ q ∈ (Render.factoryProperties r t).values, q.readOnly = false ∧
    ∃ case, q.defaultLiteral = some (u.name ++ "." ++ case)

def Draft.InScope (d : Draft) (file : String) (u : TypeEntry) : Prop :=
  ∃ target, u.file = some target ∧ (target = file ∨ d.files.ImportsFrom file target u.name)

/-- A field that a type lists makes it import a name: it is the own field of the type, or its
default is a case of that name. -/
def ListedFieldTakes (t : TypeEntry) (target n : String) : Prop :=
  ∃ p ∈ t.properties.values, p.imports.Takes target n ∧
    (p.inherited = true → TypeEntry.Property.defaultEnum? p = some n)

def Payload.HelperTakes (d : Draft) (t : TypeEntry) (target n : String) : Prop :=
  isShaped t = true ∧ (render d t).2.Takes target n

theorem TypeEntry.takes_importsOf {p : Property} {target n : String} :
    (importsOf p).Takes target n ↔ p.imports.Takes target n ∧
      (p.inherited = true → Property.defaultEnum? p = some n) := by
  cases hi : p.inherited with
  | false => simp [takes_importsOf_own hi]
  | true => simp [takes_importsOf_inherited hi, and_comm]

theorem BaseTypes.file_of_takes {hydra : String} {t : TypeEntry} {target n : String}
    (h : t ∈ BaseTypes.all hydra) (hi : t.imports.Takes target n) : t.file = some target := by
  obtain ⟨rfl, -⟩ := (shared_of_mem h).imports hi
  simp only [all, List.mem_append, List.mem_map, List.mem_cons, List.not_mem_nil, or_false] at h
  rcases h with ((⟨n, -, rfl⟩ | rfl | rfl | rfl) | h) | rfl | rfl
  · exact absurd hi (Imports.not_takes_empty _ _)
  · rfl
  · rfl
  · rfl
  · exact file_envelope h
  · exact absurd hi (Imports.not_takes_empty _ _)
  · exact absurd hi (Imports.not_takes_empty _ _)

section Registry

variable {cat : Catalog} {r : TypeRegistry} {t u : TypeEntry} {file n m : String}

theorem Traced.file_of_hasFactory (h : Traced cat r) (ht : r.get? n = some t)
    (hf : t.hasFactory = true) : t.file = some ("interfaces/" ++ t.name) ∧ t.isRendered = true := by
  obtain ⟨className, shape, -, hh, -⟩ := h.model_of_hasFactory ht hf
  have hfile : t.file = some ("interfaces/" ++ t.name) := TypeEntry.file_of_head hh
  refine ⟨hfile, (TypeEntry.isRendered_of_head hh).trans ?_⟩
  simp [TypeEntry.isRendered, Model.bare, isNonempty]

theorem Traced.alone (h : Traced cat r) (ht : r.get? n = some t) (hf : t.hasFactory = true)
    (hfile : t.file = some file) (hu : r.get? m = some u) (hfile' : u.file = some file) :
    u = t ∨ u.persistent = false ∧ ∀ {target k}, u.imports.Takes target k → target = file := by
  obtain ⟨hname, -⟩ := h.file_of_hasFactory ht hf
  obtain rfl := Option.some.inj (hfile.symm.trans hname)
  cases h.entries hu with
  | base hb =>
    refine .inr ⟨(BaseTypes.shared_of_mem hb).persistent, fun hi => ?_⟩
    exact Option.some.inj ((BaseTypes.file_of_takes hb hi).symm.trans hfile')
  | model _ hh _ =>
    have hfile'' : u.file = some ("interfaces/" ++ u.name) := TypeEntry.file_of_head hh
    have hsame : u.name = t.name :=
      (String.append_right_inj _).1 (Option.some.inj (hfile''.symm.trans hfile'))
    rw [← h.coherent.named hu, hsame, h.coherent.named ht, ht] at hu
    exact .inl (Option.some.inj hu).symm
  | enumeration _ he =>
    refine .inr ⟨by rw [he]; rfl, fun hi => ?_⟩
    rw [he] at hi
    exact absurd hi (Imports.not_takes_empty _ _)
  | list hh =>
    have hendpoint := (congrArg TypeEntry.file hh :).symm.trans hfile'
    exact absurd (Option.some.inj hendpoint).symm (interfaces_ne_endpoint _ _)

theorem Traced.takes_enum_iff (h : Traced cat r) (ht : r.get? n = some t)
    (hf : t.hasFactory = true) (hdistinct : ∀ {c shape}, cat.class? c = some shape →
      (shape.fields.map (·.name)).Nodup)
    (hu : r.get? u.name = some u) (hk : u.kind = .nativeEnum) :
    t.imports.Takes file u.name ↔ ListedFieldTakes t file u.name := by
  obtain ⟨className, shape, hc, -, hrecorded⟩ := h.model_of_hasFactory ht hf
  constructor
  · intro hi
    rcases hrecorded.recorded (hdistinct hc) hi with ⟨v, hv, hkind⟩ | ⟨p, hp, hi⟩
    · obtain rfl := Option.some.inj (hu.symm.trans hv)
      exact absurd hk hkind
    · exact ⟨p, hp, TypeEntry.takes_importsOf.1 hi⟩
  · rintro ⟨p, hp, hi⟩
    exact hrecorded.covered p hp (TypeEntry.takes_importsOf.2 hi)

end Registry

section Files

variable {cat : Catalog} {disk : Disk} {seeded modeled served d₀ d : Draft} {t : TypeEntry}
  {file target n : String}

theorem takes_of_contributes (hp : Phased cat disk seeded modeled served d₀)
    (hr : Rendered cat disk d₀ d) (ht : d.types.get? t.name = some t) (hf : t.hasFactory = true)
    (hfile : t.file = some file) {f : Fragment} (h : Contributes cat disk d file f)
    (hi : f.imports.Takes target n) (hne : target ≠ file) :
    t.imports.Takes target n ∨ Payload.HelperTakes d t target n := by
  have htraced := hp.traced
  rw [← hr.types] at htraced
  obtain ⟨hname, -⟩ := htraced.file_of_hasFactory ht hf
  rw [hfile, Option.some.injEq] at hname
  -- Only the types of the file and the helper of the interface import from elsewhere.
  cases h with
  | seed _ hmem =>
    rw [BaseTypes.imports_of_seeded hmem] at hi
    exact absurd hi (Imports.not_takes_empty _ _)
  | payload hmem =>
    obtain ⟨u, hu, hufile, rfl⟩ := hmem
    obtain ⟨hu, hshaped⟩ := List.mem_filter.1 hu
    obtain ⟨m, hm⟩ := TypeRegistry.mem_toList.1 hu
    have hshaped' : (u.kind = .interface ∧ u.persistent = true) ∧ u.isRendered = true := by
      simpa [Payload.isShaped] using hshaped
    obtain ⟨file', hfile', -⟩ := TypeEntry.file_of_isRendered hshaped'.2
    rw [hfile', Option.getD_some] at hufile
    obtain rfl := hufile
    rcases htraced.alone ht hf hfile hm hfile' with rfl | ⟨hplain, -⟩
    · exact .inr ⟨hshaped, hi⟩
    · rw [hshaped'.1.2] at hplain
      cases hplain
  | types hmem =>
    obtain ⟨⟨_, group⟩, hgroup, rfl, hfragment⟩ := hmem
    obtain ⟨u, hu, hi⟩ := (Render.takes_typeFragment hfragment).1 hi
    have hbyFile := OrderedMap.mem_entries_iff.1 hgroup
    obtain ⟨hmem, hwritten, hufile⟩ := TypeRegistry.mem_byFile.1 (by rw [hbyFile]; exact hu)
    obtain ⟨m, hm⟩ := TypeRegistry.mem_toList.1 hmem
    obtain ⟨file', hfile', -⟩ := TypeEntry.file_of_isRendered hwritten
    rw [hfile', Option.getD_some] at hufile
    rcases htraced.alone ht hf hfile hm (hufile ▸ hfile') with rfl | ⟨-, hown⟩
    · exact .inl hi
    · exact absurd (hown hi) hne
  | endpoint hmem =>
    obtain ⟨e, he, _, _, -, hefile, -⟩ := hmem
    obtain ⟨c, hc⟩ := OrderedMap.mem_values_iff.1 he
    rw [hr.operations] at hc
    obtain ⟨shape, resource, x, hserved, hcore⟩ := hp.served_entry hc
    rw [← EndpointEntry.file_of_core hcore, hserved.holds.file] at hefile
    rw [hefile] at hname
    exact absurd hname.symm (interfaces_ne_endpoint _ _)
  | routes _ hmem =>
    obtain ⟨_, -, -, hroutes⟩ := hmem
    rw [hroutes] at hname
    have hhead := congrArg (fun s => s.toList.head?) hname
    simp [Routes.routesFile, String.toList_append] at hhead

/-- The file of an interface imports what the interface and its payload helper take. -/
theorem importsFrom_interface_iff (hp : Phased cat disk seeded modeled served d₀)
    (hr : Rendered cat disk d₀ d) (ht : d.types.get? t.name = some t)
    (hf : t.hasFactory = true) (hfile : t.file = some file) :
    d.files.ImportsFrom file target n ↔ target ≠ file ∧ (t.imports.Takes target n ∨
      Payload.HelperTakes d t target n) := by
  constructor
  · rintro ⟨hne, htakes⟩
    obtain ⟨f, hmem, htakes⟩ := SourceFile.takes_importsOf.1 htakes
    have hcontributes := hr.fragments.1 hmem
    exact ⟨hne, takes_of_contributes hp hr ht hf hfile hcontributes htakes hne⟩
  · have htraced := hp.traced
    rw [← hr.types] at htraced
    obtain ⟨-, hrendered⟩ := htraced.file_of_hasFactory ht hf
    rintro ⟨hne, htakes | ⟨hshaped, htakes⟩⟩
    · exact hr.imports_of_type ht hrendered hfile htakes hne
    · rw [Payload.render_congr hr.types hr.operations] at htakes
      rw [hr.types] at ht
      refine hr.imports_of_payload (List.mem_filter.2 ⟨?_, hshaped⟩) hfile htakes hne
      exact TypeRegistry.mem_toList.2 ⟨_, ht⟩

end Files

/-- A case that a factory writes is in scope exactly if the file declares the enum or a field that
the interface lists records it. A payload helper may also happen to take a name of the same text. -/
theorem printed_enum_in_scope_iff {doc : Document} {disk : Disk} {d : Draft} {t u : TypeEntry}
    {file : String} (h : Generates doc disk d) (hdistinct : doc.FieldsDistinct)
    (hprints : PrintsCase d.types file t u) :
    d.InScope file u ↔ ∃ target, u.file = some target ∧ (target = file ∨
      ListedFieldTakes t target u.name ∨ Payload.HelperTakes d t target u.name) := by
  obtain ⟨seeded, modeled, served, hp, hr⟩ := h.rendered
  have htraced := hp.traced
  rw [← hr.types] at htraced
  have hshapes : ∀ {c shape}, (Catalog.ofDocument doc).class? c = some shape →
      (shape.fields.map (·.name)).Nodup := fun hc =>
    hdistinct _ (Catalog.mem_classes_of_class? hc).1
  refine exists_congr fun target => and_congr_right fun _ => ?_
  rw [importsFrom_interface_iff hp hr hprints.registered hprints.hasFactory hprints.filed,
    htraced.takes_enum_iff hprints.registered hprints.hasFactory hshapes hprints.enum
      hprints.kind]
  by_cases hsame : target = file
  · simp [hsame]
  · simp [hsame]

def statusField : Field where
  name := "status"
  types := [{ builtin := "object", className := some "App\\Enum\\PostStatus" }]
  defaultCase := some "Draft"

def postDecl : ClassDecl where
  className := "App\\Entity\\Post"
  fields := [statusField]

def featuredDecl (fields : List Field) : ClassDecl where
  className := "App\\Entity\\FeaturedPost"
  parent := some "App\\Entity\\Post"
  fields
  exposures := [{ shortName := "FeaturedPost" }]

def blog (fields : List Field) : Document where
  classes := [postDecl, featuredDecl fields]
  enums := [{
    className := "App\\Enum\\PostStatus"
    cases := [{ name := "Draft" }, { name := "Published" }] }]

def badgeField : Field where
  name := "badge"
  types := [{ builtin := "string" }]

theorem exists_printsCase (r : TypeRegistry) (n m case file target : String)
    (ht : (r.get? n).map (fun t => (t.name, t.hasFactory, t.file,
      (Render.factoryProperties r t).values.any fun q =>
        !q.readOnly && q.defaultLiteral == some (m ++ "." ++ case))) =
          some (n, true, some file, true))
    (hu : (r.get? m).map (fun u => (u.name, u.kind, u.file)) =
      some (m, .nativeEnum, some target)) :
    ∃ t u, r.get? n = some t ∧ PrintsCase r file t u ∧ u.name = m ∧ u.file = some target := by
  obtain ⟨t, htype, hfacts⟩ := Option.map_eq_some_iff.1 ht
  obtain ⟨u, henum, hkind⟩ := Option.map_eq_some_iff.1 hu
  simp only [Prod.mk.injEq] at hfacts hkind
  obtain ⟨rfl, hfactory, hfile, hany⟩ := hfacts
  obtain ⟨rfl, hkind, htarget⟩ := hkind
  obtain ⟨q, hq, hliteral⟩ := List.any_eq_true.1 hany
  have hliteral : q.readOnly = false ∧ q.defaultLiteral = some (u.name ++ "." ++ case) := by
    simpa using hliteral
  exact ⟨t, u, htype,
    ⟨htype, hfactory, hfile, henum, hkind, q, hq, hliteral.1, case, hliteral.2⟩, rfl, htarget⟩

theorem blog_prints (fields : List Field)
    (h : fields = [badgeField] ∨ fields = [statusField, badgeField]) :
    ∃ d t u, Generates (blog fields) {} d ∧
      (extraction (.ofDocument (blog fields)) {}).types.get? "FeaturedPost" = some t ∧
      PrintsCase d.types "interfaces/FeaturedPost" t u ∧ u.name = "PostStatus" ∧
      u.file = some "interfaces/Post" := by
  obtain ⟨d, hd⟩ : ∃ d, Generates (blog fields) {} d := by
    rcases h with rfl | rfl
    · refine exists_generates (by decide +kernel) (extracts_extraction (by decide +kernel)) ?_
        fun _ => by decide +kernel
      decide +kernel
    · refine exists_generates (by decide +kernel) (extracts_extraction (by decide +kernel)) ?_
        fun _ => by decide +kernel
      decide +kernel
  obtain ⟨_, _, _, -, hr⟩ := hd.rendered
  obtain ⟨t, u, ht, hprints, hname, hfile⟩ := exists_printsCase
    (extraction (.ofDocument (blog fields)) {}).types "FeaturedPost" "PostStatus" "Draft"
    "interfaces/FeaturedPost" "interfaces/Post" (by rcases h with rfl | rfl <;> decide +kernel)
    (by rcases h with rfl | rfl <;> decide +kernel)
  rw [← hr.types] at hprints
  exact ⟨d, t, u, hd, ht, hprints, hname, hfile⟩

/-- A child that lists the field again imports the enum of its default. -/
theorem listed_status_in_scope : ∃ d t u, Generates (blog [statusField, badgeField]) {} d ∧
    (blog [statusField, badgeField]).FieldsDistinct ∧
    PrintsCase d.types "interfaces/FeaturedPost" t u ∧
    d.InScope "interfaces/FeaturedPost" u := by
  have hdistinct : (blog [statusField, badgeField]).FieldsDistinct := by
    unfold Document.FieldsDistinct
    decide
  obtain ⟨d, t, u, hd, ht, hprints, hname, hfile⟩ :=
    blog_prints [statusField, badgeField] (.inr rfl)
  have hlists : ((extraction (.ofDocument (blog [statusField, badgeField])) {}).types.get?
      "FeaturedPost").map (fun t => t.properties.values.any fun p =>
        decide (p.imports.Takes "interfaces/Post" "PostStatus") &&
          TypeEntry.Property.defaultEnum? p == some "PostStatus") = some true := by decide +kernel
  rw [ht, Option.map_some, Option.some.injEq, List.any_eq_true] at hlists
  obtain ⟨p, hp, hfield⟩ := hlists
  have hfield : p.imports.Takes "interfaces/Post" "PostStatus" ∧
      TypeEntry.Property.defaultEnum? p = some "PostStatus" := by simpa using hfield
  have htakes : ListedFieldTakes t "interfaces/Post" u.name := by
    rw [hname]
    exact ⟨p, hp, hfield.1, fun _ => hfield.2⟩
  exact ⟨d, t, u, hd, hdistinct, hprints,
    (printed_enum_in_scope_iff hd hdistinct hprints).2 ⟨_, hfile, .inr (.inl htakes)⟩⟩

/-- A child that does not list it writes the default of its parent without the import. -/
theorem inherited_status_out_of_scope : ∃ d t u, Generates (blog [badgeField]) {} d ∧
    PrintsCase d.types "interfaces/FeaturedPost" t u ∧
    ¬d.InScope "interfaces/FeaturedPost" u := by
  obtain ⟨d, t, u, hd, ht, hprints, hname, hfile⟩ :=
    blog_prints [badgeField] (.inl rfl)
  obtain ⟨_, _, _, hphased, hr⟩ := hd.rendered
  have htakes : ((extraction (.ofDocument (blog [badgeField])) {}).types.get?
      "FeaturedPost").map (fun t => (decide (t.imports.Takes "interfaces/Post" "PostStatus"),
        Payload.isShaped t)) = some (false, false) := by decide +kernel
  rw [ht, Option.map_some, Option.some.injEq, Prod.mk.injEq, decide_eq_false_iff_not] at htakes
  refine ⟨d, t, u, hd, hprints, ?_⟩
  rintro ⟨target, htarget, hscope⟩
  obtain rfl := Option.some.inj (hfile.symm.trans htarget)
  rw [hname] at hscope
  rcases hscope with hsame | himports
  · exact absurd hsame (by decide)
  · obtain ⟨-, h | ⟨h, -⟩⟩ := (importsFrom_interface_iff hphased hr hprints.registered
      hprints.hasFactory hprints.filed).1 himports
    · exact htakes.1 h
    · rw [htakes.2] at h
      cases h

end HydraClient
