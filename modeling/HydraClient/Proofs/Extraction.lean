import HydraClient.Proofs.Growth

/-! # Extraction of classes

Extraction lets the registry grow, keeps every type and source that is there already, and ends with
the class it was asked for under its source. The recursion over related classes is opened once
here; what holds of the registry is then a matter of its changes.
-/
namespace HydraClient

open Metadata TypeRegistry Model Operations

variable {cat : Catalog}

theorem Growth.coherent {r r' : TypeRegistry} (h : Growth cat r r') (hr : Coherent r) :
    Coherent r' := by
  cases h with
  | opened _ hs hn =>
    exact hr.put rfl fun held hh => by
      rw [show r.get? (bare _ _ _).name = none from hr.resolveName_fresh hs hn] at hh
      cases hh
  | enumerated _ _ hs hn =>
    exact hr.put rfl fun held hh => by
      rw [show r.get? (nativeEnum _ _ _ _).name = none from hr.resolveName_fresh hs hn] at hh
      cases hh
  | extended => exact hr.modify (head_withParent _)
  | addressed => exact hr.modify head_withAddress
  | filled => exact hr.modify fun t => t.head_addProperty _
  | listed _ _ _ _ _ _ _ _ hheld => exact hr.put listType_source (by simpa using hheld)

theorem Grows.coherent {r r' : TypeRegistry} (h : Grows cat r r') (hr : Coherent r) :
    Coherent r' := by
  induction h with
  | refl => exact hr
  | tail _ step ih => exact step.coherent ih

structure Extracted (cat : Catalog) (s s' : Draft) : Prop where
  growth : Grows cat s.types s'.types
  kept : Extends s.types s'.types
  operations : s'.operations = s.operations
  files : s'.files = s.files

namespace Extracted

theorem refl (s : Draft) : Extracted cat s s := ⟨.refl, .refl _, rfl, rfl⟩

theorem trans {s₁ s₂ s₃ : Draft} (h : Extracted cat s₁ s₂) (h' : Extracted cat s₂ s₃) :
    Extracted cat s₁ s₃ :=
  ⟨h.growth.trans h'.growth, h.kept.trans h'.kept, h'.operations.trans h.operations,
    h'.files.trans h.files⟩

theorem coherent {s s' : Draft} (h : Extracted cat s s') (hs : Coherent s.types) :
    Coherent s'.types := h.growth.coherent hs

end Extracted

def Finds (cat : Catalog) (x : Drafting TypeEntry) (className : String) : Prop :=
  ∀ {s t s'}, Coherent s.types → Yields x s t s' →
    Extracted cat s s' ∧ s'.types.lookupSource className = some t

theorem Drafting.yields_register {t : TypeEntry} {s s' : Draft} {u : Unit}
    (h : Yields (Drafting.register t) s u s') :
    (∀ held, s.types.get? t.name = some held → held.source = t.source) ∧
      s' = { s with types := s.types.put t } := by
  obtain ⟨r, hr, h⟩ := Yields.lift_bind.1 (Yields.get_bind.1 h)
  obtain ⟨hheld, rfl⟩ := register_ok_iff.1 hr
  exact ⟨hheld, Yields.modify_iff.1 h⟩

theorem Drafting.yields_modifyType {n : String} {f : TypeEntry → TypeEntry} {s s' : Draft}
    {u : Unit} (h : Yields (Drafting.modifyType n f) s u s') :
    s' = { s with types := s.types.modify n f } := Yields.modify_iff.1 h

theorem Drafting.yields_addFragment {file : String} {f : Fragment} {s s' : Draft} {u : Unit}
    (h : Yields (Drafting.addFragment file f) s u s') :
    s' = { s with files := s.files.add file f } := Yields.modify_iff.1 h

namespace Model

theorem lookupSource_put {r : TypeRegistry} {t : TypeEntry} {c : String}
    (ht : t.source = some c) : (r.put t).lookupSource c = some t :=
  lookupSource_eq_some.2 ⟨t.name, by simp [put, ht, OrderedMap.get?_insert], by simp [get?_put]⟩

theorem resolveEnum_finds {className file : String} (hc : cat.classify className = .enumeration)
    (hf : Houses cat file) : Finds cat (resolveEnum cat className (some file)) className := by
  intro s t s' hs h
  have h := Yields.get_bind.1 h
  cases hl : s.types.lookupSource className with
  | some u =>
    simp only [hl, Yields.pure_iff] at h
    obtain ⟨rfl, rfl⟩ := h
    exact ⟨.refl _, hl⟩
  | none =>
    simp only [hl] at h
    obtain ⟨name, hn, h⟩ := Yields.lift_bind.1 h
    cases he : cat.enum? className with
    | none => simp [he] at h
    | some shape =>
      simp only [he, hf.ne_empty, if_false] at h
      obtain ⟨_, m, hr, h⟩ := Yields.bind_iff.1 h
      obtain ⟨-, rfl⟩ := Drafting.yields_register hr
      obtain ⟨rfl, rfl⟩ := Yields.pure_iff.1 h
      refine ⟨⟨.single (.enumerated he hc hl hn hf), ?_, rfl, rfl⟩, lookupSource_put rfl⟩
      exact Extends.put hl hs rfl (hs.resolveName_fresh hl hn)

section Fields

variable {visit : String → Drafting TypeEntry} {owner : TypeEntry} {field : Field} {file : String}

theorem refer_refers {className : String} {unknown : Failure} {ref : Referent} {s s' : Draft}
    (hv : ∀ c, Finds cat (visit c) c) (ho : owner.file = some file) (hf : Houses cat file)
    (hs : Coherent s.types) (h : Yields (refer cat visit owner className unknown) s ref s') :
    Extracted cat s s' ∧ Refers cat s'.types className ref := by
  unfold refer at h
  cases hc : cat.classify className <;> simp only [hc] at h
  case model =>
    obtain ⟨t, ht, rfl⟩ := Yields.map_iff.1 h
    obtain ⟨hx, hl⟩ := hv className hs ht
    exact ⟨hx, .model hc hl⟩
  case enumeration =>
    obtain ⟨t, ht, rfl⟩ := Yields.map_iff.1 h
    rw [ho] at ht
    obtain ⟨hx, hl⟩ := resolveEnum_finds hc hf hs ht
    exact ⟨hx, .enumeration hc hl⟩
  case datetime =>
    obtain ⟨rfl, rfl⟩ := Yields.pure_iff.1 h
    exact ⟨.refl _, .datetime hc⟩
  case identifier =>
    obtain ⟨rfl, rfl⟩ := Yields.pure_iff.1 h
    exact ⟨.refl _, .identifier hc⟩
  case passthrough =>
    obtain ⟨rfl, rfl⟩ := Yields.pure_iff.1 h
    exact ⟨.refl _, .passthrough hc⟩
  case unknown => exact absurd h Yields.not_throw

theorem element_of_yields {value : FieldType} {p q : Property} {e : String} {s s' : Draft}
    (hv : ∀ c, Finds cat (visit c) c) (ho : owner.file = some file) (hf : Houses cat file)
    (hs : Coherent s.types) (h : Yields (element cat visit owner field value p) s (e, q) s') :
    Extracted cat s s' ∧ Element cat s'.types owner.source value p e q := by
  unfold element at h
  split at h
  · split at h
    · rename_i hb
      obtain ⟨h, rfl⟩ := Yields.pure_iff.1 h
      cases h
      exact ⟨.refl _, .scalar hb⟩
    · split at h
      · obtain ⟨h, rfl⟩ := Yields.pure_iff.1 h
        cases h
        exact ⟨.refl _, .mixed⟩
      · exact absurd h Yields.not_throw
  · rename_i c hc
    obtain ⟨ref, m, href, h⟩ := Yields.bind_iff.1 h
    obtain ⟨he, rfl⟩ := Yields.pure_iff.1 h
    obtain ⟨hx, href⟩ := refer_refers hv ho hf hs href
    exact ⟨hx, .related hc href he.symm⟩

theorem formed_of_applyClass {t : FieldType} {c : String} {p q : Property} {s s' : Draft}
    (hv : ∀ c, Finds cat (visit c) c) (ho : owner.file = some file) (hf : Houses cat file)
    (hs : Coherent s.types) (hc : t.className = some c)
    (h : Yields (applyClass cat visit owner field c (withNull t p)) s q s') :
    Extracted cat s s' ∧ Formed cat s'.types owner.source field t p q := by
  obtain ⟨ref, m, href, h⟩ := Yields.bind_iff.1 h
  obtain ⟨hx, href⟩ := refer_refers hv ho hf hs href
  cases ref with
  | enumeration e =>
    obtain ⟨case?, hd, h⟩ := Yields.lift_bind.1 h
    cases case? with
    | some case =>
      obtain ⟨rfl, rfl⟩ := Yields.pure_iff.1 h
      exact ⟨hx, .defaulting hc href hd⟩
    | none =>
      obtain ⟨rfl, rfl⟩ := Yields.pure_iff.1 h
      exact ⟨hx, .referring hc href fun e' he => hd⟩
  | model | datetime | identifier | passthrough =>
    obtain ⟨rfl, rfl⟩ := Yields.pure_iff.1 h
    exact ⟨hx, .referring hc href fun _ e => nomatch e⟩

theorem formed_of_applyType {t : FieldType} {p q : Property} {s s' : Draft}
    (hv : ∀ c, Finds cat (visit c) c) (ho : owner.file = some file) (hf : Houses cat file)
    (hs : Coherent s.types) (h : Yields (applyType cat visit owner field p t) s q s') :
    Extracted cat s s' ∧ Formed cat s'.types owner.source field t p q := by
  unfold applyType at h
  split at h
  · rename_i hb
    obtain ⟨literal, hl, h⟩ := Yields.lift_bind.1 h
    obtain ⟨rfl, rfl⟩ := Yields.pure_iff.1 h
    exact ⟨.refl _, .scalar hb hl⟩
  · split at h
    · rename_i value _ hvalue
      obtain ⟨⟨e, p'⟩, m, he, h⟩ := Yields.bind_iff.1 h
      obtain ⟨rfl, rfl⟩ := Yields.pure_iff.1 h
      obtain ⟨hx, he⟩ := element_of_yields hv ho hf hs he
      exact ⟨hx, .collection hvalue he⟩
    · split at h
      · obtain ⟨rfl, rfl⟩ := Yields.pure_iff.1 h
        exact ⟨.refl _, .array⟩
      · split at h
        · split at h
          · obtain ⟨rfl, rfl⟩ := Yields.pure_iff.1 h
            exact ⟨.refl _, .object⟩
          · rename_i hc
            exact formed_of_applyClass hv ho hf hs hc h
        · exact absurd h Yields.not_throw

theorem built_of_buildProperty {inherited : Bool} {p : Property} {s s' : Draft}
    (hv : ∀ c, Finds cat (visit c) c) (ho : owner.file = some file) (hf : Houses cat file)
    (hs : Coherent s.types) (h : Yields (buildProperty cat visit owner field inherited) s p s') :
    Extracted cat s s' ∧ Built cat s'.types owner.source field inherited p := by
  unfold buildProperty at h
  unfold Built
  generalize blank field inherited = p₀ at h ⊢
  generalize field.types = ts at h ⊢
  induction ts generalizing p₀ s with
  | nil =>
    rw [List.foldlM_nil, Yields.pure_iff] at h
    obtain ⟨rfl, rfl⟩ := h
    exact ⟨.refl _, .done⟩
  | cons t rest ih =>
    rw [List.foldlM_cons] at h
    obtain ⟨q, m, hq, h⟩ := Yields.bind_iff.1 h
    obtain ⟨hx, hq⟩ := formed_of_applyType hv ho hf hs hq
    obtain ⟨hx', hp⟩ := ih (hx.coherent hs) q h
    exact ⟨hx.trans hx', .step (hq.of_extends hx'.kept) hp⟩

end Fields

/-- A class that is being filled, after some of its fields: what was there before is unchanged, and
the class itself stands under its name with properties of those fields only. -/
structure Filling (cat : Catalog) (s₀ : Draft) (name className : String) (shape : ClassDecl)
    (done : List Field) (s : Draft) : Prop where
  extracted : Extracted cat s₀ s
  opened : Opened cat s.types name className shape
  properties : ∀ t, s.types.get? name = some t → ∀ k ∈ t.properties.keys, k ∈ done.map (·.name)

namespace Filling

variable {s₀ s s' : Draft} {name className : String} {shape : ClassDecl} {done : List Field}

theorem of_extracted (h : Filling cat s₀ name className shape done s)
    (hx : Extracted cat s s') : Filling cat s₀ name className shape done s' where
  extracted := h.extracted.trans hx
  opened := h.opened.of_extends hx.kept
  properties t ht := by
    obtain ⟨u, hu, -⟩ := h.opened.registered
    obtain rfl : u = t := Option.some.inj ((hx.kept.entries hu).symm.trans ht)
    exact h.properties u hu

theorem of_open (hc : cat.class? className = some shape) (hs : Coherent s.types)
    (hl : s.types.lookupSource className = none)
    (hname : s.types.resolveName (nameCandidates cat.config shape) className = .ok name) :
    Filling cat s name className shape []
      { s with types := s.types.put (bare name className shape) } := by
  have hn := hs.resolveName_fresh hl hname
  have hget : (s.types.put (bare name className shape)).get? name =
      some (bare name className shape) := by
    rw [get?_put]
    exact if_pos rfl
  refine ⟨⟨.single (.opened hc hl hname), .put hl hs rfl hn, rfl, rfl⟩,
    ⟨hc, (resolveName_ok hname).1, by simp [put, bare, OrderedMap.get?_insert], _, hget, rfl⟩, ?_⟩
  intro t ht k hk
  obtain rfl := Option.some.inj (hget.symm.trans ht)
  cases hk

theorem modify {f : TypeEntry → TypeEntry} (h : Filling cat s₀ name className shape done s)
    (hn : s₀.types.get? name = none)
    (hg : Growth cat s.types (s.types.modify name f)) (hf : ∀ t, (f t).head = t.head)
    {done' : List Field} (hp : ∀ t, (∀ k ∈ t.properties.keys, k ∈ done.map (·.name)) →
      ∀ k ∈ (f t).properties.keys, k ∈ done'.map (·.name)) :
    Filling cat s₀ name className shape done' { s with types := s.types.modify name f } where
  extracted := ⟨h.extracted.growth.tail hg, h.extracted.kept.modify hn, h.extracted.operations,
    h.extracted.files⟩
  opened := h.opened.modify hf
  properties t ht := by
    rw [get?_modify, if_pos rfl] at ht
    obtain ⟨u, hu, rfl⟩ := Option.map_eq_some_iff.1 ht
    exact hp u (h.properties u hu)

end Filling

section Classes

variable {visit : String → Drafting TypeEntry} {s₀ s s' : Draft} {name className : String}
  {shape : ClassDecl}

inductive ParentStep (cat : Catalog) (visit : String → Drafting TypeEntry) (name : String)
    (shape : ClassDecl) (s : Draft) : Option String → Draft → Prop where
  | skip : (∀ n, shape.parent = some n → n ≠ "" → cat.classify n ≠ .model) →
      ParentStep cat visit name shape s none s
  | add {n : String} {p : TypeEntry} {m : Draft} : shape.parent = some n → n ≠ "" →
      cat.classify n = .model → Yields (visit n) s p m →
      ParentStep cat visit name shape s (some p.name)
        { m with types := m.types.modify name (withParent p) }

inductive FieldStep (cat : Catalog) (visit : String → Drafting TypeEntry) (owner : TypeEntry)
    (className : String) (parent : Option String) (field : Field) (s : Draft) : Draft → Prop where
  | skip : field.isExposed = false → FieldStep cat visit owner className parent field s s
  | add {p : Property} {m : Draft} : field.isExposed = true →
      Yields (buildProperty cat visit owner field
        (isInherited className field (parent.bind s.types.get?))) s p m →
      FieldStep cat visit owner className parent field s
        { m with types := m.types.modify owner.name (·.addProperty p) }

theorem parentStep_of_yields {parent : Option String}
    (h : Yields (extractParent cat visit name shape) s parent s') :
    ParentStep cat visit name shape s parent s' := by
  unfold extractParent at h
  split at h
  · rename_i hp
    obtain ⟨rfl, rfl⟩ := Yields.pure_iff.1 h
    exact .skip fun n hn => by simp [hp] at hn
  · rename_i n hp
    split at h
    · rename_i hskip
      obtain ⟨rfl, rfl⟩ := Yields.pure_iff.1 h
      refine .skip fun m hm hne => ?_
      obtain rfl := Option.some.inj (hp.symm.trans hm)
      simpa [hne] using hskip
    · rename_i hadd
      simp only [Bool.or_eq_true, decide_eq_true_eq, bne_iff_ne, not_or, Decidable.not_not] at hadd
      obtain ⟨p, m, hvisit, h⟩ := Yields.bind_iff.1 h
      obtain ⟨_, m', hm, h⟩ := Yields.bind_iff.1 h
      obtain ⟨rfl, rfl⟩ := Yields.pure_iff.1 h
      obtain rfl := Drafting.yields_modifyType hm
      exact .add hp hadd.1 hadd.2 hvisit

theorem fieldStep_of_yields {owner : TypeEntry} {parent : Option String} {field : Field} {u : Unit}
    (h : Yields (extractField cat visit owner className parent field) s u s') :
    FieldStep cat visit owner className parent field s s' := by
  unfold extractField at h
  split at h
  · rename_i hexposed
    obtain ⟨p, m, hbuild, h⟩ := Yields.bind_iff.1 (Yields.get_bind.1 h)
    obtain rfl := Drafting.yields_modifyType h
    exact .add hexposed hbuild
  · rename_i hhidden
    obtain ⟨-, rfl⟩ := Yields.pure_iff.1 h
    exact .skip (by simpa using hhidden)

/-- The extraction of a class that is new: it is registered bare, and then its parent, its address
and its fields are added in turn. -/
structure NewSteps (cat : Catalog) (visit : String → Drafting TypeEntry) (className : String)
    (s : Draft) (t : TypeEntry) (s' : Draft) (shape : ClassDecl) (name : String)
    (parent : Option String) (m m' : Draft) : Prop where
  described : cat.class? className = some shape
  resolved : s.types.resolveName (nameCandidates cat.config shape) className = .ok name
  parented : ParentStep cat visit name shape
    { s with types := s.types.put (bare name className shape) } parent m
  addressed : m' = m ∨ shape.isAddressable = true ∧
    m' = { m with types := m.types.modify name withAddress }
  filled : Passes (FieldStep cat visit (bare name className shape) className parent) shape.fields
    m' s'
  result : t = (s'.types.get? name).getD (bare name className shape)

theorem exists_newSteps {t : TypeEntry} (h : Yields (extractNew cat visit className) s t s') :
    ∃ shape name parent m m', NewSteps cat visit className s t s' shape name parent m m' := by
  unfold extractNew at h
  split at h
  · rename_i shape hshape
    obtain ⟨name, hname, h⟩ := Yields.lift_bind.1 (Yields.get_bind.1 h)
    obtain ⟨_, _, hr, h⟩ := Yields.bind_iff.1 h
    obtain ⟨-, rfl⟩ := Drafting.yields_register hr
    obtain ⟨parent, m, hparent, h⟩ := Yields.bind_iff.1 h
    obtain ⟨m', haddressed, h⟩ : ∃ m', (m' = m ∨ shape.isAddressable = true ∧
          m' = { m with types := m.types.modify name withAddress }) ∧
        Yields (do
          shape.fields.forM (extractField cat visit (bare name className shape) className parent)
          pure (((← get).types.get? name).getD (bare name className shape))) m' t s' := by
      split at h
      · rename_i ha
        obtain ⟨_, m', hm, h⟩ := Yields.bind_iff.1 h
        exact ⟨m', .inr ⟨ha, Drafting.yields_modifyType hm⟩, h⟩
      · exact ⟨m, .inl rfl, h⟩
    obtain ⟨_, m'', hfields, h⟩ := Yields.bind_iff.1 h
    have h := Yields.get_bind.1 h
    obtain ⟨rfl, rfl⟩ := Yields.pure_iff.1 h
    exact ⟨shape, name, parent, m, m', hshape, hname, parentStep_of_yields hparent, haddressed,
      (Yields.forM_pass hfields).mono fun _ _ _ _ => fieldStep_of_yields, rfl⟩
  · exact absurd h Yields.not_throw

theorem yields_extractWithin_succ {depth : Nat} {t : TypeEntry}
    (h : Yields (extractWithin cat (depth + 1) className) s t s') :
    s.types.lookupSource className = some t ∧ s' = s ∨
      s.types.lookupSource className = none ∧
        Yields (extractNew cat (extractWithin cat depth) className) s t s' := by
  have h := Yields.get_bind.1 h
  cases hl : s.types.lookupSource className with
  | some u =>
    simp only [hl, Yields.pure_iff] at h
    exact .inl ⟨congrArg some h.1.symm, h.2⟩
  | none =>
    simp only [hl] at h
    exact .inr ⟨rfl, h⟩

theorem parentOf_eq_none (h : ∀ n, shape.parent = some n → n ≠ "" → cat.classify n ≠ .model)
    (r : TypeRegistry) : parentOf cat r shape = none := by
  unfold parentOf
  split
  · rfl
  · rename_i n hn
    by_cases hne : n = ""
    · simp [hne]
    · simp [h n hn hne]

inductive ParentKnown (cat : Catalog) (shape : ClassDecl) (r : TypeRegistry) :
    Option String → Prop where
  | absent : (∀ r, parentOf cat r shape = none) → ParentKnown cat shape r none
  | present {c n : String} : (∀ r, parentOf cat r shape = r.lookupSource c) →
      r.sources.get? c = some n → ParentKnown cat shape r (some n)

theorem ParentKnown.of_sources {r r' : TypeRegistry} {parent : Option String}
    (h : ParentKnown cat shape r parent)
    (hr : ∀ {c n}, r.sources.get? c = some n → r'.sources.get? c = some n) :
    ParentKnown cat shape r' parent := by
  cases h with
  | absent hp => exact .absent hp
  | present hp hc => exact .present hp (hr hc)

theorem ParentKnown.bind_get? {r r' : TypeRegistry} {parent : Option String}
    (h : ParentKnown cat shape r parent) (hr : Coherent r) (hx : Extends r r') :
    parent.bind r.get? = parentOf cat r' shape := by
  cases h with
  | absent hp => rw [hp]; rfl
  | present hp hc =>
    obtain ⟨t, ht, -⟩ := hr.sourced hc
    rw [hp, Option.bind_some, ht]
    exact (hx.lookupSource (lookupSource_eq_some.2 ⟨_, hc, ht⟩)).symm

theorem filling_of_parentStep {parent : Option String}
    (hv : ∀ c, Finds cat (visit c) c) (hs₀ : Coherent s₀.types) (hn : s₀.types.get? name = none)
    (hF : Filling cat s₀ name className shape [] s)
    (h : ParentStep cat visit name shape s parent s') :
    Filling cat s₀ name className shape [] s' ∧ ParentKnown cat shape s'.types parent := by
  cases h with
  | skip habsent => exact ⟨hF, .absent (parentOf_eq_none habsent)⟩
  | @add c p m hp hne hmodel hvisit =>
    have hs := hF.extracted.coherent hs₀
    obtain ⟨hx, hl⟩ := hv c hs hvisit
    have hm := hF.of_extracted hx
    have hparent : ∀ r, parentOf cat r shape = r.lookupSource c := fun r => by
      simp [parentOf, hp, hne, hmodel]
    refine ⟨hm.modify hn (.extended hm.opened ((hparent _).trans hl)) (head_withParent p)
      fun t ht => ?_, .present hparent ((hx.coherent hs).of_lookupSource hl).1⟩
    rw [withParent]
    cases p.file <;> exact ht

theorem filling_of_fieldStep {parent : Option String} {field : Field}
    {before after : List Field} (hv : ∀ c, Finds cat (visit c) c) (hs₀ : Coherent s₀.types)
    (hn : s₀.types.get? name = none) (hF : Filling cat s₀ name className shape before s)
    (hfields : shape.fields = before ++ field :: after)
    (hp : ParentKnown cat shape s.types parent)
    (h : FieldStep cat visit (bare name className shape) className parent field s s') :
    Filling cat s₀ name className shape (before ++ [field]) s' ∧
      ParentKnown cat shape s'.types parent := by
  cases h with
  | skip =>
    refine ⟨⟨hF.extracted, hF.opened, fun t ht k hk => ?_⟩, hp⟩
    simp [hF.properties t ht k hk]
  | @add p m hexposed hbuild =>
    have hs := hF.extracted.coherent hs₀
    obtain ⟨hx, hb⟩ := built_of_buildProperty hv rfl hF.opened.houses hs hbuild
    have hm := hF.of_extracted hx
    rw [hp.bind_get? hs hx.kept] at hb
    have hname : p.name = field.name := hb.sameField.name
    refine ⟨hm.modify hn (.filled hm.opened (by simp [hfields]) hexposed hb ?_)
      (fun t => t.head_addProperty p) ?_, hp.of_sources hx.kept.sources⟩
    · intro hnd t ht
      rw [OrderedMap.get?_eq_none_iff]
      intro hk
      have := hm.properties t ht _ hk
      rw [hfields, List.map_append, List.nodup_append] at hnd
      exact hnd.2.2 _ this _ (by simp) rfl
    · intro t ht k hk
      rcases TypeEntry.mem_keys_addProperty hk with hk | rfl
      · simp [ht k hk]
      · simp [hname]

theorem extractNew_finds (hv : ∀ c, Finds cat (visit c) c) {s s' : Draft} {t : TypeEntry}
    (hl : s.types.lookupSource className = none) (hs : Coherent s.types)
    (h : Yields (extractNew cat visit className) s t s') :
    Extracted cat s s' ∧ s'.types.lookupSource className = some t := by
  obtain ⟨shape, name, parent, m, m', hsteps⟩ := exists_newSteps h
  have hn := hs.resolveName_fresh hl hsteps.resolved
  obtain ⟨hparented, hp⟩ := filling_of_parentStep hv hs hn
    (.of_open hsteps.described hs hl hsteps.resolved) hsteps.parented
  have haddressed : Filling cat s name className shape [] m' ∧
      ParentKnown cat shape m'.types parent := by
    rcases hsteps.addressed with rfl | ⟨ha, rfl⟩
    · exact ⟨hparented, hp⟩
    · exact ⟨hparented.modify hn (.addressed hparented.opened ha) head_withAddress fun _ ht => ht,
        hp.of_sources id⟩
  obtain ⟨hfilled, -⟩ := hsteps.filled.prefix_invariant
    (I := fun done m => Filling cat s name className shape done m ∧
      ParentKnown cat shape m.types parent) haddressed
    fun before field after m m' hsplit hI hR =>
      filling_of_fieldStep hv hs hn hI.1 hsplit hI.2 hR
  obtain ⟨u, hu, hget⟩ := hfilled.opened.lookupSource
  exact ⟨hfilled.extracted, by simp [hsteps.result, hu, hget]⟩

end Classes

theorem extractWithin_finds (depth : Nat) (className : String) :
    Finds cat (extractWithin cat depth className) className := by
  -- Every visit goes one class deeper, so the induction is on the depth that is left.
  induction depth generalizing className with
  | zero => exact fun _ h => absurd h Yields.not_throw
  | succ depth ih =>
    intro s t s' hs h
    rcases yields_extractWithin_succ h with ⟨hl, rfl⟩ | ⟨hl, hnew⟩
    · exact ⟨.refl _, hl⟩
    · exact extractNew_finds ih hl hs hnew

theorem extract_finds (className : String) : Finds cat (extract cat className) className :=
  extractWithin_finds (depthBound cat) className

theorem extracted_of_mapM {s s' : Draft} {cs : List String} {ts : List TypeEntry}
    (hs : Coherent s.types) (h : Yields (cs.mapM (extract cat)) s ts s') : Extracted cat s s' := by
  refine (Yields.mapM_pass h).invariant (I := fun m => Extracted cat s m) (.refl s) ?_
  rintro c - m m' hm ⟨t, ht⟩
  exact hm.trans (extract_finds c (hm.coherent hs) ht).1

theorem found_of_mapM {s s' : Draft} {cs : List String} {ts : List TypeEntry} {c : String}
    (hs : Coherent s.types) (h : Yields (cs.mapM (extract cat)) s ts s') (hc : c ∈ cs) :
    ∃ t, s'.types.lookupSource c = some t := by
  suffices hall : Extracted cat s s' ∧ ∀ a ∈ cs, ∃ t, s'.types.lookupSource a = some t from
    hall.2 c hc
  refine (Yields.mapM_pass h).prefix_invariant (I := fun done m => Extracted cat s m ∧
    ∀ a ∈ done, ∃ t, m.types.lookupSource a = some t) ⟨.refl s, by simp⟩ ?_
  rintro done c rest m m' - ⟨hm, hdone⟩ ⟨t, ht⟩
  obtain ⟨hx, hl⟩ := extract_finds c (hm.coherent hs) ht
  refine ⟨hm.trans hx, fun a ha => ?_⟩
  rcases List.mem_append.1 ha with ha | ha
  · obtain ⟨u, hu⟩ := hdone a ha
    exact ⟨u, hx.kept.lookupSource hu⟩
  · exact ⟨t, List.mem_singleton.1 ha ▸ hl⟩

theorem extracted_of_extractAll {s s' : Draft} {ts : List TypeEntry} (hs : Coherent s.types)
    (h : Yields (extractAll cat) s ts s') : Extracted cat s s' := extracted_of_mapM hs h

end Model

end HydraClient
