import HydraClient.Proofs.Alike
import HydraClient.Proofs.Runs

/-! # What a run preserves

Models, operations and their types are extracted one class after the other, each under its plain
name, and between them only interfaces of query parameters are registered. A property of the
registry that both leave alone holds at the end of a run if the base types have it.
-/
namespace HydraClient

open Metadata TypeRegistry

def TypeEntry.isMade (t : TypeEntry) : Bool := t.hasFactory || t.kind == .nativeEnum

theorem TypeEntry.isMade_of_head {t u : TypeEntry} (h : t.head = u.head) : t.isMade = u.isMade :=
  (congrArg isMade h : t.head.isMade = u.head.isMade)

/-- Work that starts from a registry with a property and succeeds leaves one with it. -/
abbrev Preserves {α : Type} (I : TypeRegistry → Prop) (x : Drafting α) : Prop :=
  Alike (fun s => I s.types) (fun s => I s.types) x x

/-- A property of the registry that the extraction of classes with certain names preserves, plain
ones among them, and that query parameters of such classes preserve as well. -/
structure Lasting (cat : Catalog) (P : String → Prop) (I : TypeRegistry → Prop) : Prop where
  plain : ∀ c, P (ClassName.relative c)
  visit : ∀ c, P c → Preserves I (Model.extract cat c)
  list : ∀ {r : TypeRegistry} {t : TypeEntry} {a : String} {shape : ClassDecl}, I r →
    a ∈ cat.resources → P a → cat.class? a = some shape →
    t.source = some (Operations.listSource a) → t.isMade = false →
    (∀ held, r.get? t.name = some held → held.source = t.source) → I (r.put t)

namespace Lasting

variable {cat : Catalog} {P : String → Prop} {I : TypeRegistry → Prop} {entry : EndpointEntry}
  {resource : TypeEntry} {shape : ClassDecl} {e : Exposure} {o : Operation}

section Entries

open Operations

theorem preserves_ioType (h : Lasting cat P I) (c : Option String) (resource : TypeEntry) :
    Preserves I (ioType cat c resource) := by
  unfold ioType
  split
  · exact .pure resource
  · split
    · exact .pure resource
    · exact h.visit _ (h.plain _)

theorem preserves_modifyEntry (c : String) (f : EndpointEntry → EndpointEntry) :
    Preserves I (Drafting.modifyEntry c f) := .modify fun _ hs => hs

variable (h : Lasting cat P I) (ha : entry.source ∈ cat.resources) (hP : P entry.source)
  (hshape : cat.class? entry.source = some shape)
include h ha hP hshape

theorem preserves_listParams : Preserves I (listParams cat entry resource e o) := by
  refine .same fun s n s' hs hy => ?_
  obtain ⟨rfl, d, -, hheld, rfl⟩ := yields_listParams hy
  have hhead := listType_head cat.config entry resource e o d
  refine h.list hs ha hP hshape listType_source (congrArg TypeEntry.isMade hhead :) ?_
  rw [listType_name, listType_source]
  exact hheld

theorem preserves_buildCall : Preserves I (buildCall cat entry resource e o) := by
  refine (Alike.lift _).bind fun kind => (h.preserves_ioType _ _).bind fun input =>
    (h.preserves_ioType _ _).bind fun output => (preserves_modifyEntry _ _).bind fun _ => ?_
  split
  · exact (h.preserves_listParams ha hP hshape).map.bind fun _ => .pure _
  · exact (Alike.pure _).bind fun _ => .pure _

theorem preserves_extractExposure :
    Preserves I (extractExposure cat entry resource e) := by
  refine (preserves_modifyEntry _ _).bind fun _ => .forM fun o _ => ?_
  unfold extractOperation
  split
  · exact (h.preserves_buildCall ha hP hshape).bind fun call => preserves_modifyEntry _ _
  · exact .pure _

end Entries

variable {disk : Disk} {seeded modeled served d : Draft} (h : Lasting cat P I)
  (hP : ∀ a ∈ cat.resources, P a)
include h hP

theorem of_extractResource {s s' : Draft} {a b : String} (ha : a ∈ cat.resources)
    (hs : I s.types) (hcoherent : Coherent s.types) (hnew : s.operations.get? a = none)
    (hy : Yields (Operations.extractResource cat a) s b s') : I s'.types := by
  unfold Operations.extractResource at hy
  split at hy
  · rename_i shape hshape
    obtain ⟨resource, m, hresource, hy⟩ := Yields.bind_iff.1 hy
    have hm : I m.types := (h.visit a (hP a ha) s hs).2 resource m hresource
    obtain ⟨hextracted, -⟩ := Model.extract_finds a hcoherent hresource
    have hcreate : m.operations.getOrCreate a resource.name ("endpoint/" ++ resource.name) =
        (m.operations.insert a (Operations.newEntry a resource),
          Operations.newEntry a resource) := by
      simp [OperationRegistry.getOrCreate, hextracted.operations, hnew, Operations.newEntry]
    have hy := Yields.get_bind.1 hy
    simp only [hcreate] at hy
    obtain ⟨_, m', hset, hy⟩ := Yields.bind_iff.1 hy
    obtain rfl := Yields.modify_iff.1 hset
    obtain ⟨_, m'', hexposures, hy⟩ := Yields.bind_iff.1 hy
    obtain ⟨-, rfl⟩ := Yields.pure_iff.1 hy
    have hserved : Preserves I (shape.exposures.forM
        (Operations.extractExposure cat (Operations.newEntry a resource) resource)) :=
      .forM fun e _ => h.preserves_extractExposure ha (hP a ha) hshape
    refine (hserved _ ?_).2 _ _ hexposures
    exact hm
  · exact absurd hy Yields.not_throw

/-- A property that the base types have and that lasts holds at the end of a run. -/
theorem of_phased (hp : Phased cat disk seeded modeled served d) (hseeded : I seeded.types) :
    I d.types := by
  obtain ⟨ts, hmodels⟩ := hp.models
  obtain ⟨cs, hoperations⟩ := hp.operations
  have hextracted : Preserves I (Model.extractAll cat) :=
    .mapM fun c hc => h.visit c (hP c (List.mem_filter.1 hc).1)
  have hmodeled : I modeled.types := (hextracted _ hseeded).2 ts _ hmodels
  have hcoherent : Coherent modeled.types := hp.extracted.coherent hp.exactly.coherent
  have hnodup : (cat.resources.filter cat.config.matchesNamespace).Nodup :=
    cat.nodup_resources.sublist List.filter_sublist
  have hnone : modeled.operations = .empty :=
    hp.extracted.operations.trans (BaseTypes.yields_seed hp.seed).2.1
  rw [hp.types_eq]
  -- No class is taken up twice, so there is no entry of it yet.
  have hserved := (Yields.mapM_pass hoperations).prefix_invariant
    (I := fun done m => Operations.Bound cat modeled done m ∧ I m.types)
    ⟨⟨.refl, rfl, fun hget => by simp [hnone] at hget⟩, hmodeled⟩
    fun before c after m m' hsplit hI hR => by
      obtain ⟨b, hb⟩ := hR
      have hc : c ∈ cat.resources.filter cat.config.matchesNamespace := by simp [hsplit]
      have ha := (List.mem_filter.1 hc).1
      rw [hsplit, List.nodup_append] at hnodup
      have hnew : c ∉ before := fun hmem => hnodup.2.2 c hmem c (by simp) rfl
      have hfree : m.operations.get? c = none := by
        cases hget : m.operations.get? c with
        | none => rfl
        | some x => exact absurd (hI.1.entries hget).1 hnew
      exact ⟨hI.1.of_extractResource hcoherent ha hnew hb, h.of_extractResource hP ha hI.2
        (hI.1.growth.coherent hcoherent) hfree hb⟩
  exact hserved.2

end Lasting

/-- A property of the registry that each change of the registry preserves: when a type is registered
without properties, when a type changes otherwise than in its head and its properties, and when the
property of a field is added to the type of its class. -/
structure Steady (cat : Catalog) (I : TypeRegistry → Prop) : Prop where
  coherent : ∀ {r}, I r → Coherent r
  put : ∀ {r : TypeRegistry} {t : TypeEntry} {c : String}, I r → t.source = some c →
    r.lookupSource c = none → r.get? t.name = none → t.properties = .empty → I (r.put t)
  modify : ∀ {r : TypeRegistry} {name : String} {f : TypeEntry → TypeEntry}, I r →
    (∀ t, (f t).head = t.head) → (∀ t, (f t).properties = t.properties) → I (r.modify name f)
  add : ∀ {visit : String → Drafting TypeEntry} {name c : String} {shape : ClassDecl} {f : Field}
    {inherited : Bool} {s s' : Draft} {p : Property}, (∀ a, Finds cat (visit a) a) →
    Coherent s.types → Model.Opened cat s.types name c shape → f ∈ shape.fields →
    f.isExposed = true →
    Yields (Model.buildProperty cat visit (Model.bare name c shape) f inherited) s p s' →
    I s'.types → I (s'.types.modify name (·.addProperty p))
  list : ∀ {r : TypeRegistry} {t : TypeEntry} {a : String} {shape : ClassDecl}, I r →
    a ∈ cat.resources → cat.class? a = some shape →
    t.source = some (Operations.listSource a) → t.isMade = false →
    (∀ held, r.get? t.name = some held → held.source = t.source) → I (r.put t)

namespace Steady

open Model

variable {cat : Catalog} {I : TypeRegistry → Prop} (h : Steady cat I)
include h

theorem preserves_resolveEnum (e : String) (file : Option String) :
    Preserves I (resolveEnum cat e file) := by
  refine alike_resolveEnum_of_put file fun {s n file shape} hs hl hn _ _ => ?_
  have hfree := (h.coherent hs).resolveName_fresh hl hn
  exact h.put (t := nativeEnum n e file shape) hs rfl hl hfree rfl

section Steps

variable {visit : String → Drafting TypeEntry} {s s' : Draft} {name c : String}
  {shape : ClassDecl} {parent : Option String} (hk : ∀ a, Preserves I (visit a))
include hk

theorem of_parentStep (hs : I s.types) (hstep : ParentStep cat visit name shape s parent s') :
    I s'.types := by
  cases hstep with
  | skip => exact hs
  | @add n q m _ _ _ hvisit =>
    refine h.modify ((hk n s hs).2 q m hvisit) (head_withParent q) fun t => ?_
    rw [withParent]
    cases q.file <;> rfl

theorem of_fieldStep {field : Field} (hv : ∀ a, Finds cat (visit a) a) (hs : I s.types)
    (ho : Opened cat s.types name c shape) (hmem : field ∈ shape.fields)
    (hstep : FieldStep cat visit (bare name c shape) c parent field s s') : I s'.types := by
  cases hstep with
  | skip => exact hs
  | @add p m hexposed hbuild =>
    have hm : I m.types := (alike_buildProperty _ (fun _ _ a _ =>
      ⟨fun _ => hk a, fun _ file => h.preserves_resolveEnum a file⟩) s hs).2 p m hbuild
    exact h.add hv (h.coherent hs) ho hmem hexposed hbuild hm

end Steps

theorem preserves_extractWithin (depth : Nat) (c : String) :
    Preserves I (extractWithin cat depth c) := by
  induction depth generalizing c with
  | zero => exact .throw _
  | succ depth ih =>
    refine .same fun s t s' hs hy => ?_
    rcases yields_extractWithin_succ hy with ⟨-, rfl⟩ | ⟨hl, hnew⟩
    · exact hs
    obtain ⟨shape, name, parent, m, m', hsteps⟩ := exists_newSteps hnew
    have hv : ∀ a, Finds cat (extractWithin cat depth a) a := extractWithin_finds depth
    have hs₀ := h.coherent hs
    have hfree := hs₀.resolveName_fresh hl hsteps.resolved
    have hopen := Filling.of_open hsteps.described hs₀ hl hsteps.resolved
    have hparented : I m.types := h.of_parentStep ih
      (h.put (t := bare name c shape) hs rfl hl hfree rfl) hsteps.parented
    obtain ⟨hfilling, hp⟩ := filling_of_parentStep hv hs₀ hfree hopen hsteps.parented
    have haddressed : Filling cat s name c shape [] m' ∧ ParentKnown cat shape m'.types parent ∧
        I m'.types := by
      rcases hsteps.addressed with rfl | ⟨ha, rfl⟩
      · exact ⟨hfilling, hp, hparented⟩
      · exact ⟨hfilling.modify hfree (.addressed hfilling.opened ha) head_withAddress
          fun _ ht => ht, hp.of_sources id, h.modify hparented head_withAddress fun _ => rfl⟩
    -- The class stays open while one field after the other is added to it.
    obtain ⟨-, -, hfilled⟩ := hsteps.filled.prefix_invariant
      (I := fun done m => Filling cat s name c shape done m ∧
        ParentKnown cat shape m.types parent ∧ I m.types) haddressed
      fun before field after m m' hsplit hI hR => by
        obtain ⟨hF, hp, hm⟩ := hI
        obtain ⟨hF', hp'⟩ := filling_of_fieldStep hv hs₀ hfree hF hsplit hp hR
        exact ⟨hF', hp', h.of_fieldStep ih hv hm hF.opened (by simp [hsplit]) hR⟩
    exact hfilled

theorem lasting : Lasting cat (fun _ => True) I where
  plain _ := trivial
  visit c _ := h.preserves_extractWithin _ c
  list hr ha _ hc ht hplain hheld := h.list hr ha hc ht hplain hheld

end Steady
end HydraClient
