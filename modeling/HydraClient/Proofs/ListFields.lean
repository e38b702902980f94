import HydraClient.Proofs.Fields

/-! # Fields of list parameters

Filters write the types of query parameters out of names that they import, apart from the types that
the declaration of a search spells out itself. Whatever a field is united from, its names are
imported in the end, since imports are only ever added.
-/
namespace HydraClient

open Metadata TypeRegistry

inductive Composed (scope given : String → Prop) : TypeUnion → Prop where
  | empty : Composed scope given .empty
  | worded {u : TypeUnion} {e : String} :
      Composed scope given u → Worded scope e → Composed scope given (u.addExpression e)
  | given {u : TypeUnion} {e : String} :
      Composed scope given u → given e → Composed scope given (u.addExpression e)

theorem Composed.mono {scope scope' given : String → Prop} {u : TypeUnion}
    (h : Composed scope given u) (hs : ∀ n, scope n → scope' n) : Composed scope' given u := by
  induction h with
  | empty => exact .empty
  | worded _ he ih => exact .worded ih (he.mono hs)
  | given _ he ih => exact .given ih he

def Declared (filters : List Filter) (e : String) : Prop :=
  ∃ f ∈ filters, ∃ p ∈ f.parameters.values, e = Filter.primitive p.type

structure Gathered (r : TypeRegistry) (given : String → Prop) (d : Derivation) : Prop where
  imports : ∀ {f n}, d.imports.Takes f n → r.Declares f n
  fields : ∀ f ∈ d.fields.values, Composed (r.Imported d.imports) given f.union

structure GathersMore (r : TypeRegistry) (given : String → Prop) (d d' : Derivation) : Prop where
  grown : ∀ {f n}, d.imports.Takes f n → d'.imports.Takes f n
  gathered : Gathered r given d'

def Filed (r : TypeRegistry) : Prop :=
  ∀ {n t}, r.get? n = some t → t.file = none ∨ t.isRendered = true

theorem TypeEntry.file_of_isRendered {t : TypeEntry} (h : t.isRendered = true) :
    ∃ file, t.file = some file ∧ file ≠ "" := by
  cases hf : t.file with
  | none => simp [TypeEntry.isRendered, isNonempty, hf] at h
  | some file =>
    simp only [TypeEntry.isRendered, isNonempty, hf, Option.any_some, Bool.and_eq_true,
      bne_iff_ne] at h
    exact ⟨file, rfl, h.1.2⟩

theorem Filed.ne_empty {r : TypeRegistry} {file n : String} (h : Filed r)
    (hd : r.Declares file n) : file ≠ "" := by
  obtain ⟨t, ht, hf⟩ := hd
  rcases h ht with hnone | hrendered
  · rw [hf] at hnone
    cases hnone
  · obtain ⟨file', hf', hne⟩ := TypeEntry.file_of_isRendered hrendered
    rw [hf] at hf'
    cases hf'
    exact hne

section Gathering

variable {r : TypeRegistry} {given : String → Prop} {d d' d'' : Derivation} {hydra : String}

theorem GathersMore.refl (h : Gathered r given d) : GathersMore r given d d := ⟨id, h⟩

theorem GathersMore.trans (h : GathersMore r given d d') (h' : GathersMore r given d' d'') :
    GathersMore r given d d'' := ⟨fun hi => h'.grown (h.grown hi), h'.gathered⟩

theorem GathersMore.imported {n : String} (h : GathersMore r given d d')
    (hn : r.Imported d.imports n) : r.Imported d'.imports n := hn.mono h.grown

theorem gathersMore_of_pass {α : Type} {l : List α} {f : α → Deriving Unit}
    (hd : Gathered r given d) (h : Yields (l.forM f) d ⟨⟩ d')
    (step : ∀ a ∈ l, ∀ {m m'}, GathersMore r given d m → Yields (f a) m ⟨⟩ m' →
      GathersMore r given m m') : GathersMore r given d d' :=
  (Yields.forM_pass h).invariant (.refl hd) fun a ha _ _ hm hR => hm.trans (step a ha hm hR)

namespace Deriving

theorem gathers_depend {file n : String} (hd : Gathered r given d)
    (hn : file ≠ "" → r.Declares file n) (h : Yields (depend file n) d ⟨⟩ d') :
    GathersMore r given d d' ∧ (file ≠ "" → d'.imports.Takes file n) := by
  obtain rfl := Yields.modify_iff.1 h
  by_cases hf : file = ""
  · simpa [hf] using GathersMore.refl hd
  · have grown : ∀ {f m}, d.imports.Takes f m → (d.imports.add file n).Takes f m :=
      fun hi => Imports.takes_add.2 (.inr hi)
    simp only [hf, if_false]
    refine ⟨⟨grown, fun hi => ?_, fun f hf => (hd.fields f hf).mono fun _ hm => hm.mono grown⟩,
      fun _ => Imports.takes_add.2 (.inl ⟨rfl, rfl⟩)⟩
    rcases Imports.takes_add.1 hi with ⟨rfl, rfl⟩ | hi
    · exact hn hf
    · exact hd.imports hi

theorem gathers_names {file : String} {names : List String} (hd : Gathered r given d)
    (hn : ∀ n ∈ names, r.Declares file n) (hf : file ≠ "")
    (h : Yields (names.forM fun n => depend file n) d ⟨⟩ d') :
    GathersMore r given d d' ∧ ∀ n ∈ names, d'.imports.Takes file n := by
  refine (Yields.forM_pass h).prefix_invariant
    (I := fun done m => GathersMore r given d m ∧ ∀ n ∈ done, m.imports.Takes file n)
    ⟨.refl hd, by simp⟩ fun before n after m m' hsplit hm hR => ?_
  obtain ⟨hmore, htakes⟩ := gathers_depend hm.1.gathered
    (fun _ => hn n (by simp [hsplit])) hR
  refine ⟨hm.1.trans hmore, fun k hk => ?_⟩
  rcases List.mem_append.1 hk with hk | hk
  · exact hmore.grown (hm.2 k hk)
  · rw [List.mem_singleton.1 hk]
    exact htakes hf

theorem gathers_dependAll {i : Imports} (hfiled : Filed r) (hd : Gathered r given d)
    (hi : ∀ {f n}, i.Takes f n → r.Declares f n) (h : Yields (dependAll i) d ⟨⟩ d') :
    GathersMore r given d d' ∧ ∀ {f n}, i.Takes f n → d'.imports.Takes f n := by
  suffices hall : GathersMore r given d d' ∧
      ∀ g ∈ i.toList, ∀ n ∈ g.2.toList, d'.imports.Takes g.1 n by
    refine ⟨hall.1, ?_⟩
    rintro f n ⟨g, hg, rfl, hn⟩
    exact hall.2 g hg n hn
  refine (Yields.forM_pass h).prefix_invariant
    (I := fun done m => GathersMore r given d m ∧
      ∀ g ∈ done, ∀ n ∈ g.2.toList, m.imports.Takes g.1 n) ⟨.refl hd, by simp⟩ ?_
  rintro before ⟨file, names⟩ after m m' hsplit hm hR
  have hg : ∀ n ∈ names.toList, r.Declares file n := fun n hn =>
    hi ⟨(file, names), by simp [hsplit], rfl, hn⟩
  have hnames : GathersMore r given m m' ∧ ∀ n ∈ names.toList, m'.imports.Takes file n := by
    by_cases hempty : names.toList = []
    · have hpure : Yields (pure () : Deriving Unit) m () m' := by simpa [hempty] using hR
      obtain ⟨-, rfl⟩ := Yields.pure_iff.1 hpure
      exact ⟨.refl hm.1.gathered, by simp [hempty]⟩
    · obtain ⟨n, hn⟩ := List.exists_mem_of_ne_nil _ hempty
      exact gathers_names hm.1.gathered hg (hfiled.ne_empty (hg n hn)) hR
  refine ⟨hm.1.trans hnames.1, fun k hk n hn => ?_⟩
  rcases List.mem_append.1 hk with hk | hk
  · exact hnames.1.grown (hm.2 k hk n hn)
  · rw [List.mem_singleton.1 hk] at hn ⊢
    exact hnames.2 n hn

theorem gathers_dependOnType {n : String} (hfiled : Filed r) (hd : Gathered r given d)
    (hn : ∃ t, r.get? n = some t) (h : Yields (dependOnType r n) d ⟨⟩ d') :
    GathersMore r given d d' ∧ r.Imported d'.imports n := by
  obtain ⟨t, ht⟩ := hn
  simp only [dependOnType, ht] at h
  split at h
  · rename_i hrendered
    obtain ⟨file, hfile, hne⟩ := TypeEntry.file_of_isRendered hrendered
    rw [hfile, Option.getD_some] at h
    obtain ⟨hmore, htakes⟩ := gathers_depend hd (fun _ => ⟨t, ht, hfile⟩) h
    refine ⟨hmore, t, ht, fun f hf => ?_⟩
    obtain rfl := Option.some.inj (hfile.symm.trans hf)
    exact htakes hne
  · rename_i hrendered
    obtain ⟨-, rfl⟩ := Yields.pure_iff.1 h
    refine ⟨.refl hd, t, ht, fun f hf => ?_⟩
    have := (hfiled ht).resolve_right hrendered
    rw [this] at hf
    cases hf

theorem composed_contribute {fs : FilterFields} {scope : String → Prop} {name expression : String}
    {required collection : Bool} (hfs : ∀ f ∈ fs.values, Composed scope given f.union)
    (he : Worded scope expression ∨ given expression) :
    ∀ f ∈ (fs.contribute name expression required collection).values,
      Composed scope given f.union := by
  intro f hf
  rcases OrderedMap.mem_values_insert hf with rfl | hf
  · have held : Composed scope given ((fs.get? name).getD { name }).union := by
      cases hk : fs.get? name with
      | some g => exact hfs g (OrderedMap.mem_values_iff.2 ⟨name, hk⟩)
      | none => exact .empty
    exact he.elim (.worded held) (.given held)
  · exact hfs f hf

theorem gathers_contribute {name expression : String} {required collection : Bool}
    (hd : Gathered r given d)
    (he : Worded (r.Imported d.imports) expression ∨ given expression)
    (h : Yields (contribute name expression required collection) d ⟨⟩ d') :
    GathersMore r given d d' := by
  obtain rfl := Yields.modify_iff.1 h
  exact ⟨id, hd.imports, composed_contribute hd.fields he⟩

end Deriving
end Gathering

/-- What filters rely on: the registry is filled from the base types on, and the type of the
resource has sound properties. -/
structure Searchable (hydra : String) (r : TypeRegistry) (resource : TypeEntry) : Prop where
  seeded : Seeded hydra r
  filed : Filed r
  properties : ∀ p ∈ resource.properties.values, FieldSound r resource.name p ∨ Plain p

namespace Worded

variable {scope : String → Prop} {e : String}

theorem primitive (h : Worded scope e) (hnumber : scope "number") (hboolean : scope "boolean") :
    Worded scope (Filter.primitive e) := by
  unfold Filter.primitive
  split
  · exact .of_spelled (spelled_name hnumber)
  · exact .of_spelled (spelled_name hnumber)
  · exact .of_spelled (spelled_name hnumber)
  · exact .of_spelled (spelled_name hboolean)
  · exact h

theorem record {keys : List String} {value : String} (h : scope value) :
    Worded scope (Filter.partialRecord keys value) :=
  .of_spelled (spelled_text (t := .partialRecord keys value) (by simpa [TypeTerm.names] using h))

end Worded

namespace Filter

variable {hydra : String} {r : TypeRegistry} {resource : TypeEntry} {filter : Metadata.Filter}
  {given : String → Prop} {d d' : Derivation}

theorem localProperty_mem {path : String} {p : Property}
    (h : Yields (localProperty resource filter path) d p d') :
    p ∈ resource.properties.values ∧ d = d' := by
  dsimp only [localProperty] at h
  split at h
  · rename_i q hq
    obtain ⟨rfl, rfl⟩ := Yields.pure_iff.1 h
    exact ⟨OrderedMap.mem_values_iff.2 ⟨_, hq⟩, rfl⟩
  · exact absurd h Yields.not_throw

theorem exposedName_keeps {key name : String} {p : FilterParameter}
    (h : Yields (exposedName resource filter key p) d name d') : d = d' := by
  obtain ⟨q, m, hq, h⟩ := Yields.bind_iff.1 h
  obtain ⟨-, rfl⟩ := Yields.pure_iff.1 h
  exact (localProperty_mem hq).2

theorem namedProperties_keeps {out : Option String × List String}
    (h : Yields (namedProperties resource filter) d out d') : d = d' := by
  obtain ⟨names, m, hnames, h⟩ := Yields.bind_iff.1 h
  obtain ⟨-, rfl⟩ := Yields.pure_iff.1 h
  exact (Yields.mapM_pass hnames).invariant (I := (d = ·)) rfl fun _ _ _ _ hm ⟨_, hR⟩ =>
    hm.trans (exposedName_keeps hR)

theorem operators_keeps {ops : OrderedMap String (List String)}
    (h : Yields (operators resource filter) d ops d') : d = d' := by
  refine (Yields.foldlM_pass h).invariant (I := fun x => d = x.2) rfl ?_
  rintro ⟨key, p⟩ - x y hx hR
  dsimp only at hR
  split at hR
  · obtain ⟨-, hy⟩ := Yields.pure_iff.1 hR
    exact hx.trans hy.symm
  · obtain ⟨name, m, hname, hR⟩ := Yields.bind_iff.1 hR
    obtain ⟨-, hy⟩ := Yields.pure_iff.1 hR
    exact (hx.trans (exposedName_keeps hname)).trans hy.symm

theorem gathers_searchExpression {prop : Property} {p : FilterParameter} {e : String}
    (hs : Searchable hydra r resource) (hd : Gathered r given d)
    (hown : r.Imported d.imports resource.name)
    (hprop : FieldSound r resource.name prop ∨ Plain prop)
    (hi : ∀ {f n}, prop.imports.Takes f n → d.imports.Takes f n)
    (h : Yields (searchExpression r prop p) d e d') :
    GathersMore r given d d' ∧ (Worded (r.Imported d'.imports) e ∨ e = p.type) := by
  unfold searchExpression at h
  split at h
  · rename_i hschema
    simp only [Bool.and_eq_true, Bool.not_eq_true'] at hschema
    have hf : FieldSound r resource.name prop := by
      refine hprop.resolve_right ?_
      intro hp
      rw [hp.schema] at hschema
      cases hschema.1
    split at h
    · obtain ⟨m, hm, hn, h⟩ : ∃ m, GathersMore r given d m ∧
          r.Imported m.imports ((prop.related.filter (· != "")).getD "any") ∧
          Yields (do
            Deriving.depend BaseTypes.apiTypesFile "HydraIri"
            pure ("HydraIri<" ++ (prop.related.filter (· != "")).getD "any" ++ ">")) m e d' := by
        cases hrel : prop.related.filter (· != "") with
        | none =>
          simp only [hrel] at h
          exact ⟨d, .refl hd, hs.seeded.builtin (by decide), h⟩
        | some n =>
          simp only [hrel] at h
          obtain ⟨_, m, hn, h⟩ := Yields.bind_iff.1 h
          obtain ⟨hmore, hi⟩ := Deriving.gathers_dependOnType hs.filed hd
            (hf.related (Option.eq_some_of_filter_eq_some hrel)) hn
          exact ⟨m, hmore, hi, h⟩
      obtain ⟨_, m', hiri, h⟩ := Yields.bind_iff.1 h
      obtain ⟨rfl, rfl⟩ := Yields.pure_iff.1 h
      have hd' := hs.seeded.declares_hydraIri
      obtain ⟨hmore, htakes⟩ := Deriving.gathers_depend hm.gathered (fun _ => hd') hiri
      refine ⟨hm.trans hmore, .inl (.of_spelled (spelled_text (t := .atom (.applied "HydraIri"
        ((prop.related.filter (· != "")).getD "any"))) ?_))⟩
      simpa [TypeTerm.names, Atom.names] using
        ⟨hd'.imported (htakes (by decide)), hmore.imported hn⟩
    · obtain ⟨rfl, rfl⟩ := Yields.pure_iff.1 h
      refine ⟨.refl hd, .inl (Worded.of_spells (hf.union.mono fun n hn => ?_)
        (hs.seeded.builtin (by decide)))⟩
      rcases hn with hn | ⟨rfl, -⟩
      · exact hn.mono hi
      · exact hown
  · obtain ⟨rfl, rfl⟩ := Yields.pure_iff.1 h
    exact ⟨.refl hd, .inr rfl⟩

structure Ready (hydra : String) (r : TypeRegistry) (resource : TypeEntry) (given : String → Prop)
    (d : Derivation) : Prop where
  gathered : Gathered r given d
  own : r.Imported d.imports resource.name

theorem Ready.more (h : Ready hydra r resource given d) (hm : GathersMore r given d d') :
    Ready hydra r resource given d' := ⟨hm.gathered, hm.imported h.own⟩

theorem gathers_searchField {key : String} {p : FilterParameter}
    (hs : Searchable hydra r resource) (hd : Ready hydra r resource given d)
    (hp : given (primitive p.type)) (h : Yields (searchField r resource filter key p) d ⟨⟩ d') :
    GathersMore r given d d' := by
  obtain ⟨prop, m, hprop, h⟩ := Yields.bind_iff.1 h
  obtain ⟨hmem, rfl⟩ := localProperty_mem hprop
  obtain ⟨_, m₁, hall, h⟩ := Yields.bind_iff.1 h
  obtain ⟨e, m₂, he, h⟩ := Yields.bind_iff.1 h
  have hsound := hs.properties prop hmem
  have hdeclared : ∀ {f n}, prop.imports.Takes f n → r.Declares f n := fun hi =>
    hsound.elim (fun hf => hf.imports hi) fun hf => absurd hi hf.imports
  obtain ⟨hmore, htakes⟩ := Deriving.gathers_dependAll hs.filed hd.gathered hdeclared hall
  obtain ⟨hmore', he⟩ := gathers_searchExpression hs hmore.gathered (hmore.imported hd.own) hsound
    htakes he
  have hword : Worded (r.Imported m₂.imports) (primitive e) ∨ given (primitive e) := by
    rcases he with he | rfl
    · exact .inl (he.primitive (hs.seeded.builtin (by decide)) (hs.seeded.builtin (by decide)))
    · exact .inr hp
  exact (hmore.trans hmore').trans (Deriving.gathers_contribute hmore'.gathered hword h)

theorem gathers_order (hs : Searchable hydra r resource) (hd : Gathered r given d)
    (h : Yields (order resource filter) d ⟨⟩ d') : GathersMore r given d d' := by
  obtain ⟨⟨name?, names⟩, m, hnames, h⟩ := Yields.bind_iff.1 h
  obtain rfl := namedProperties_keeps hnames
  cases name? with
  | none =>
    obtain ⟨-, rfl⟩ := Yields.pure_iff.1 h
    exact .refl hd
  | some name =>
    obtain ⟨_, m', hdepend, h⟩ := Yields.bind_iff.1 h
    have hdeclared := hs.seeded.declares_enum (.inr rfl)
    obtain ⟨hmore, htakes⟩ := Deriving.gathers_depend hd (fun _ => hdeclared) hdepend
    have hword : r.Imported m'.imports "Order" := hdeclared.imported (htakes (by decide))
    exact hmore.trans (Deriving.gathers_contribute hmore.gathered (.inl (.record hword)) h)

theorem gathers_records {ops : List (String × List String)} {value : String}
    (hd : Gathered r given d) (hv : r.Imported d.imports value)
    (h : Yields (ops.forM fun (name, names) =>
      Deriving.contribute name (partialRecord names value)) d ⟨⟩ d') :
    GathersMore r given d d' := by
  refine gathersMore_of_pass hd h ?_
  rintro ⟨name, names⟩ - m m' hm hR
  exact Deriving.gathers_contribute hm.gathered (.inl (.record (hm.imported hv))) hR

theorem gathers_date (hs : Searchable hydra r resource) (hd : Gathered r given d)
    (h : Yields (date resource filter) d ⟨⟩ d') : GathersMore r given d d' := by
  obtain ⟨ops, m, hops, h⟩ := Yields.bind_iff.1 h
  obtain rfl := operators_keeps hops
  dsimp only at h
  split at h
  · obtain ⟨_, m', hdepend, h⟩ := Yields.bind_iff.1 h
    have hdeclared := hs.seeded.declares_dateTime
    obtain ⟨hmore, htakes⟩ := Deriving.gathers_depend hd (fun _ => hdeclared) hdepend
    exact hmore.trans (gathers_records hmore.gathered
      (hdeclared.imported (htakes (by decide))) h)
  · rename_i hempty
    have : ops.entries = [] := by simpa [OrderedMap.isEmpty] using hempty
    rw [this] at h
    obtain ⟨-, rfl⟩ := Yields.pure_iff.1 h
    exact .refl hd

theorem gathers_range (hs : Searchable hydra r resource) (hd : Gathered r given d)
    (h : Yields (range resource filter) d ⟨⟩ d') : GathersMore r given d d' := by
  obtain ⟨ops, m, hops, h⟩ := Yields.bind_iff.1 h
  obtain rfl := operators_keeps hops
  exact gathers_records hd (hs.seeded.builtin (by decide)) h

theorem gathers_existence (hs : Searchable hydra r resource) (hd : Gathered r given d)
    (h : Yields (existence resource filter) d ⟨⟩ d') : GathersMore r given d d' := by
  obtain ⟨⟨name?, names⟩, m, hnames, h⟩ := Yields.bind_iff.1 h
  obtain rfl := namedProperties_keeps hnames
  cases name? with
  | none =>
    obtain ⟨-, rfl⟩ := Yields.pure_iff.1 h
    exact .refl hd
  | some name =>
    have hword : r.Imported d.imports "boolean" := hs.seeded.builtin (by decide)
    exact Deriving.gathers_contribute hd (.inl (.record hword)) h

theorem gathers_booleanField {key : String} {p : FilterParameter}
    (hs : Searchable hydra r resource) (hd : Gathered r given d)
    (h : Yields (booleanField resource filter key p) d ⟨⟩ d') : GathersMore r given d d' := by
  obtain ⟨name, m, hname, h⟩ := Yields.bind_iff.1 h
  obtain rfl := exposedName_keeps hname
  have hword : Worded (r.Imported d.imports) "boolean" :=
    .of_spelled (spelled_name (hs.seeded.builtin (by decide)))
  exact Deriving.gathers_contribute hd (.inl hword) h

theorem worded_valueUnion {scope : String → Prop} {schema : OrderedMap String Json} {e : String}
    (hstring : scope "string") (h : valueUnion schema = .ok e) : Worded scope e := by
  unfold valueUnion at h
  obtain ⟨values, -, h⟩ := exists_of_bind_ok h
  obtain ⟨literals, hl, h⟩ := exists_of_bind_ok h
  obtain rfl := Except.ok.inj h
  split
  · exact .of_spelled (spelled_name hstring)
  · rename_i hne
    refine ⟨literals, fun hnil => hne (by simp [hnil]), rfl, fun s hs => ?_⟩
    obtain ⟨v, -, hv⟩ := mem_of_mapM_ok hl hs
    exact spelled_text (t := .literal v s hv) (by simp [TypeTerm.names])

theorem gathers_backedEnumField {key : String} {p : FilterParameter}
    (hs : Searchable hydra r resource) (hd : Gathered r given d)
    (h : Yields (backedEnumField r resource filter key p) d ⟨⟩ d') : GathersMore r given d d' := by
  obtain ⟨prop, m, hprop, h⟩ := Yields.bind_iff.1 h
  obtain ⟨hmem, rfl⟩ := localProperty_mem hprop
  have hnull : ∀ {i}, r.Imported i "null" := hs.seeded.builtin (by decide)
  split at h
  · rename_i e he
    have hname : prop.enumName = some e := Option.eq_some_of_filter_eq_some he
    obtain ⟨_, m', hdepend, h⟩ := Yields.bind_iff.1 h
    have hf : FieldSound r resource.name prop := by
      refine (hs.properties prop hmem).resolve_right ?_
      intro hp
      rw [hp.enumName] at hname
      cases hname
    obtain ⟨t, ht, -⟩ := hf.enumName hname
    obtain ⟨hmore, hi⟩ := Deriving.gathers_dependOnType hs.filed hd ⟨t, ht⟩ hdepend
    have hword : Worded (r.Imported m'.imports) ("null|" ++ e) :=
      .cons (spelled_name hnull) (.of_spelled (spelled_name hi))
    exact hmore.trans (Deriving.gathers_contribute hmore.gathered (.inl hword) h)
  · obtain ⟨e, he, h⟩ := Yields.lift_bind.1 h
    have hword : Worded (r.Imported d.imports) ("null|" ++ e) :=
      .cons (spelled_name hnull) (worded_valueUnion (hs.seeded.builtin (by decide)) he)
    exact Deriving.gathers_contribute hd (.inl hword) h

theorem gathers_derive (hs : Searchable hydra r resource) (hd : Ready hydra r resource given d)
    (hg : ∀ p ∈ filter.parameters.values, given (primitive p.type))
    (h : Yields (derive r resource filter) d ⟨⟩ d') : GathersMore r given d d' := by
  unfold derive at h
  cases hk : filter.kind <;> simp only [hk] at h
  case search =>
    refine gathersMore_of_pass hd.gathered h ?_
    rintro ⟨key, p⟩ hp m m' hm hR
    have hdeclared := hg p (List.mem_map_of_mem (f := Prod.snd) hp)
    exact gathers_searchField hs (hd.more hm) hdeclared hR
  case order => exact gathers_order hs hd.gathered h
  case date => exact gathers_date hs hd.gathered h
  case boolean =>
    refine gathersMore_of_pass hd.gathered h ?_
    rintro ⟨key, p⟩ - m m' hm hR
    exact gathers_booleanField hs hm.gathered hR
  case existence => exact gathers_existence hs hd.gathered h
  case range => exact gathers_range hs hd.gathered h
  case backedEnum =>
    refine gathersMore_of_pass hd.gathered h ?_
    rintro ⟨key, p⟩ - m m' hm hR
    exact gathers_backedEnumField hs hm.gathered hR

end Filter

end HydraClient
