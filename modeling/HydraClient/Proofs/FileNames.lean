import HydraClient.Proofs.Generation
import HydraClient.Proofs.ScriptNames

/-! # Names of files

Files are named after types: an interface has a file of its own, a resource another one for its
endpoint, and the rest goes into shared files. The names of types are made of short names and class
names, which nobody checks. As far as these lead down from a directory, so do the names of all
files.
-/
namespace HydraClient

open Metadata TypeRegistry

namespace Sync

open FilePath

variable {name : String}

/-- Whether the file of a name is found by going down from the directory. -/
def Descends (name : String) : Prop := IsProper (name ++ extension)

instance : DecidablePred Descends := fun _ => inferInstanceAs (Decidable (IsProper _))

theorem splitOn_intercalate {segments : List String} (hne : segments ≠ [])
    (hplain : ∀ s ∈ segments, '/' ∉ s.toList) :
    (String.intercalate "/" segments).toList.splitOn '/' = segments.map String.toList := by
  rw [String.toList_intercalate]
  refine List.splitOn_intercalate '/' (fun cs hcs => ?_) (by simpa using hne)
  obtain ⟨s, hs, rfl⟩ := List.mem_map.1 hcs
  exact hplain s hs

theorem isProper_intercalate {segments : List String} (hne : segments ≠ [])
    (hplain : ∀ s ∈ segments, '/' ∉ s.toList) :
    IsProper (String.intercalate "/" segments) ↔ ∀ s ∈ segments, IsName s := by
  rw [IsProper, splitOn_intercalate hne hplain]
  simp

theorem exists_stretches (name : String) : ∃ init last,
    name = String.intercalate "/" (init ++ [last]) ∧ ∀ s ∈ init ++ [last], '/' ∉ s.toList := by
  rcases List.eq_nil_or_concat (name.toList.splitOn '/') with hnil | ⟨init, last, hsplit⟩
  · simp at hnil
  · rw [List.concat_eq_append] at hsplit
    have hstretches : init.map String.ofList ++ [String.ofList last] =
        (name.toList.splitOn '/').map String.ofList := by simp [hsplit]
    refine ⟨init.map String.ofList, String.ofList last, ?_, ?_⟩
    · rw [hstretches, ← String.toList_inj, String.toList_intercalate, List.map_map]
      simp [Function.comp_def]
    · rw [hstretches]
      intro s hs
      obtain ⟨cs, hcs, rfl⟩ := List.mem_map.1 hs
      simpa using not_mem_of_mem_splitOn hcs

theorem descends_intercalate {init : List String} {last : String}
    (hplain : ∀ s ∈ init ++ [last], '/' ∉ s.toList) :
    Descends (String.intercalate "/" (init ++ [last])) ↔ ∀ s ∈ init, IsName s := by
  have hlast : '/' ∉ last.toList := hplain last (by simp)
  have hextended : ∀ s ∈ init ++ [last ++ extension], '/' ∉ s.toList := by
    intro s hs
    rcases List.mem_append.1 hs with hs | hs
    · exact hplain s (List.mem_append_left _ hs)
    · rw [List.mem_singleton.1 hs]
      exact (isName_append_extension hlast).2.2.2
  rw [Descends, ← intercalate_append, isProper_intercalate (by simp) hextended,
    List.forall_mem_append]
  exact and_iff_left (List.forall_mem_singleton.2 (isName_append_extension hlast))

theorem descends_of_plain (h : '/' ∉ name.toList) : Descends name := by
  have hplain : ∀ s ∈ [] ++ [name], '/' ∉ s.toList := by simpa using h
  simpa using descends_intercalate hplain

namespace Descends

theorem append {suffix : String} (h : Descends name) (hs : '/' ∉ suffix.toList) :
    Descends (name ++ suffix) := by
  obtain ⟨init, last, rfl, hplain⟩ := exists_stretches name
  rw [← intercalate_append]
  refine (descends_intercalate ?_).2 ((descends_intercalate hplain).1 h)
  intro s hs'
  rcases List.mem_append.1 hs' with hs' | hs'
  · exact hplain s (List.mem_append_left _ hs')
  · have hlast := hplain last (by simp)
    simp [List.mem_singleton.1 hs', hlast, hs]

theorem below {directory : String} (h : Descends name) (hd : IsName directory) :
    Descends (directory ++ "/" ++ name) := by
  obtain ⟨init, last, rfl, hplain⟩ := exists_stretches name
  have htext : directory ++ "/" ++ String.intercalate "/" (init ++ [last]) =
      String.intercalate "/" ((directory :: init) ++ [last]) := by
    rw [List.cons_append, String.intercalate_cons_of_ne_nil (by simp)]
  rw [htext]
  have hall : ∀ s ∈ (directory :: init) ++ [last], '/' ∉ s.toList :=
    List.forall_mem_cons.2 ⟨hd.2.2.2, hplain⟩
  exact (descends_intercalate hall).2
    (List.forall_mem_cons.2 ⟨hd, (descends_intercalate hplain).1 h⟩)

end Descends
end Sync

open Sync Model Operations

/-- A condition on names that holds of what is named after them: of files in the two directories and
of the interfaces of query parameters. What has a fixed name meets it. -/
structure HandedOn (D : String → Prop) : Prop where
  below : ∀ directory ∈ ["interfaces", "endpoint"], ∀ name, D name → D (directory ++ "/" ++ name)
  listParams : ∀ name, D name → D (listParamsName name)
  types : ∀ hydra, ∀ name ∈ (BaseTypes.all hydra).map (·.name), D name
  files : ∀ file ∈ ["", BaseTypes.apiTypesFile, BaseTypes.enumFile, BaseTypes.apiMethodsFile,
    Routes.routesFile], D file

theorem handedOn_descends : HandedOn Descends where
  below directory hd name h := by
    refine h.below ?_
    simp only [List.mem_cons, List.not_mem_nil, or_false] at hd
    rcases hd with rfl | rfl <;> decide
  listParams name h := h.append (by decide)
  types hydra name h := by
    refine descends_of_plain ?_
    rw [BaseTypes.names_all] at h
    revert name
    decide
  files := by decide

variable {cat : Catalog} {r r' : TypeRegistry} {t : TypeEntry} {n file : String}
  {D : String → Prop}

def Catalog.Names (cat : Catalog) (D : String → Prop) : Prop :=
  ∀ c shape, cat.class? c = some shape → ∀ n ∈ nameCandidates cat.config shape, D n

/-- The files of types meet a condition, and so do the names of types that stand for described
classes. -/
structure Sited (cat : Catalog) (D : String → Prop) (r : TypeRegistry) : Prop where
  coherent : Coherent r
  files : ∀ {n t file}, r.get? n = some t → t.file = some file → D file
  names : ∀ {n t c}, r.get? n = some t → t.source = some c → (cat.class? c).isSome = true →
    D t.name

namespace Sited

theorem of_change (h : Sited cat D r) (hchange : ChangesAt n t r r') (hr : Coherent r')
    (hfile : ∀ file, t.file = some file → D file)
    (hname : ∀ c, t.source = some c → (cat.class? c).isSome = true → D t.name) :
    Sited cat D r' where
  coherent := hr
  files hu := hchange.forall_entries (P := fun u => ∀ file, u.file = some file → D file)
    (fun hu _ => h.files hu) hfile hu _
  names hu := hchange.forall_entries (P := fun u => ∀ c, u.source = some c →
    (cat.class? c).isSome = true → D u.name) (fun hu _ => h.names hu) hname hu _

theorem modify {f : TypeEntry → TypeEntry} (h : Sited cat D r) (hf : ∀ t, (f t).head = t.head) :
    Sited cat D (r.modify n f) := by
  refine ⟨h.coherent.modify hf, fun hu hfile => ?_, fun hu hs hc => ?_⟩
  · obtain ⟨v, hv, hh⟩ := exists_of_get?_modify hf hu
    exact h.files hv ((TypeEntry.file_of_head hh).symm.trans hfile)
  · obtain ⟨v, hv, hh⟩ := exists_of_get?_modify hf hu
    rw [TypeEntry.name_of_head hh]
    exact h.names hv ((TypeEntry.source_of_head hh).symm.trans hs) hc

theorem name_of_lookupSource {c : String} {shape : ClassDecl} (h : Sited cat D r)
    (hl : r.lookupSource c = some t) (hc : cat.class? c = some shape) : D t.name := by
  obtain ⟨-, ht, hs⟩ := h.coherent.of_lookupSource hl
  exact h.names ht hs (by simp [hc])

theorem grow (h : Sited cat D r) (hD : HandedOn D) (hcat : cat.Names D) (hg : Growth cat r r') :
    Sited cat D r' := by
  have hr := hg.coherent h.coherent
  cases hg with
  | @opened name className shape hc hl hn =>
    have hname := hcat className shape hc name (resolveName_ok hn).1
    refine h.of_change (.put r _) hr ?_ fun _ _ _ => hname
    rintro file ⟨⟩
    exact hD.below "interfaces" (by simp) name hname
  | @enumerated name className file shape _ hkind hl hn hhouses =>
    refine h.of_change (.put r _) hr ?_ ?_
    · rintro file ⟨⟩
      obtain ⟨c, shape', hc, m, hm, rfl⟩ := hhouses
      exact hD.below "interfaces" (by simp) m (hcat c shape' hc m hm)
    · rintro c ⟨⟩ hc
      obtain ⟨shape', hshape'⟩ := Option.isSome_iff_exists.1 hc
      rw [Catalog.classify_eq_model_iff.2 ⟨shape', hshape'⟩] at hkind
      cases hkind
  | extended => exact h.modify (head_withParent _)
  | addressed => exact h.modify head_withAddress
  | filled => exact h.modify fun t => t.head_addProperty _
  | @listed entry shape resource e o d _ hc _ _ hl _ hfile _ _ =>
    have hname := h.name_of_lookupSource hl hc
    have hhead := listType_head cat.config entry resource e o d
    refine h.of_change (.put r _) hr ?_ fun _ _ _ => ?_
    · intro file hf
      have hf' := (congrArg TypeEntry.file hhead :).symm.trans hf
      obtain rfl := Option.some.inj hf'
      rw [hfile]
      exact hD.below "endpoint" (by simp) _ hname
    · rw [listType_name]
      exact hD.listParams _ hname

theorem grows (h : Sited cat D r) (hD : HandedOn D) (hcat : cat.Names D) (hg : Grows cat r r') :
    Sited cat D r' := by
  induction hg with
  | refl => exact h
  | tail _ step ih => exact ih.grow hD hcat step

theorem of_exactly {hydra : String} (hD : HandedOn D)
    (h : BaseTypes.Exactly (BaseTypes.all hydra) r) : Sited cat D r where
  coherent := h.coherent
  files ht hf := by
    rcases BaseTypes.file_of_mem (h.among ht) with hnone | hshared | hshared
    · rw [hf] at hnone
      cases hnone
    all_goals
      obtain rfl := Option.some.inj (hf.symm.trans hshared)
      exact hD.files _ (by simp)
  names ht _ _ := hD.types hydra _ (List.mem_map_of_mem (h.among ht))

end Sited

variable {disk : Disk} {d : Draft}

theorem Sited.of_getD (h : Sited cat D r) (hD : HandedOn D) (ht : t ∈ r.toList) :
    D (t.file.getD "") := by
  obtain ⟨n, ht⟩ := TypeRegistry.mem_toList.1 ht
  cases hf : t.file with
  | none => exact hD.files _ (by simp)
  | some file => exact h.files ht hf

namespace Phased

variable {seeded modeled served : Draft}

theorem sited_modeled (h : Phased cat disk seeded modeled served d) (hD : HandedOn D)
    (hcat : cat.Names D) : Sited cat D modeled.types :=
  (Sited.of_exactly hD h.exactly).grows hD hcat h.extracted.growth

theorem sited (h : Phased cat disk seeded modeled served d) (hD : HandedOn D)
    (hcat : cat.Names D) : Sited cat D d.types := by
  rw [h.types_eq]
  exact (h.sited_modeled hD hcat).grows hD hcat h.bound.growth

theorem endpoint_named {c : String} {e : EndpointEntry}
    (h : Phased cat disk seeded modeled served d) (hD : HandedOn D) (hcat : cat.Names D)
    (he : d.operations.get? c = some e) : D e.file := by
  obtain ⟨shape, resource, x, hserved, hcore⟩ := h.served_entry he
  obtain ⟨r, hgrown, hl⟩ := hserved.taken
  have hname :=
    ((h.sited_modeled hD hcat).grows hD hcat hgrown).name_of_lookupSource hl hserved.described
  rw [← EndpointEntry.file_of_core hcore, hserved.holds.file]
  exact hD.below "endpoint" (by simp) _ hname

end Phased

/-- The files that anything may be written to: those of the seed and of the routes, and those of the
types and entries. -/
def Draft.fileNames (d : Draft) : List String :=
  [BaseTypes.apiTypesFile, BaseTypes.apiMethodsFile, Routes.routesFile] ++
    d.types.toList.map (fun t => t.file.getD "") ++ d.operations.values.map (·.file)

theorem Rendered.mem_fileNames {d₀ : Draft} (h : Rendered cat disk d₀ d)
    (hn : n ∈ d.files.assemble.keys) : n ∈ d₀.fileNames := by
  have htype : ∀ t ∈ d₀.types.toList, t.file.getD "" ∈ d₀.fileNames := fun t ht =>
    List.mem_append_left _ (List.mem_append_right _ (List.mem_map_of_mem ht))
  obtain ⟨f, hf⟩ := FileSet.exists_fragment_of_mem_keys hn
  cases h.fragments.1 hf with
  | seed _ hf => rcases BaseTypes.file_of_seeded hf with rfl | rfl <;> simp [Draft.fileNames]
  | payload hf =>
    obtain ⟨t, ht, rfl, -⟩ := hf
    exact htype t (h.types ▸ (List.mem_filter.1 ht).1)
  | types hf =>
    obtain ⟨e, he, rfl, -⟩ := hf
    obtain ⟨t, ht, hfile⟩ := TypeRegistry.exists_of_mem_byFile (List.mem_map_of_mem he)
    exact hfile ▸ htype t (h.types ▸ ht)
  | endpoint hf =>
    obtain ⟨e, he, _, _, -, rfl, -⟩ := hf
    rw [h.operations] at he
    exact List.mem_append_right _ (List.mem_map_of_mem he)
  | routes _ hf =>
    obtain ⟨lines, -, -, rfl⟩ := hf
    simp [Draft.fileNames]

/-- Where the names of classes meet a condition that is handed on, so do the names of all files. -/
theorem Generates.names {doc : Document} (h : Generates doc disk d) (hD : HandedOn D)
    (hcat : (Catalog.ofDocument doc).Names D) : ∀ n ∈ d.files.assemble.keys, D n := by
  intro n hn
  obtain ⟨seeded, modeled, served, hphased, hr⟩ := h.rendered
  rcases List.mem_append.1 (hr.mem_fileNames hn) with hn | hn
  · rcases List.mem_append.1 hn with hn | hn
    · refine hD.files n ?_
      simp only [List.mem_cons, List.not_mem_nil, or_false] at hn ⊢
      tauto
    · obtain ⟨t, ht, rfl⟩ := List.mem_map.1 hn
      exact (hphased.sited hD hcat).of_getD hD ht
  · obtain ⟨e, he, rfl⟩ := List.mem_map.1 hn
    obtain ⟨c, hc⟩ := OrderedMap.mem_values_iff.1 he
    exact hphased.endpoint_named hD hcat hc

theorem Metadata.Document.names {doc : Document}
    (h : ∀ c ∈ doc.classes, ∀ n ∈ nameCandidates doc.config c, D n) :
    (Catalog.ofDocument doc).Names D :=
  fun _ shape hc => h shape (Catalog.mem_classes_of_class? hc).1

end HydraClient
