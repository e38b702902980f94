import HydraClient.Proofs.Disks
import HydraClient.Sync
import Mathlib.Data.List.Nodup

/-! # Names of scripts

The name of a script spells the way to its file, without the ending of files. A name of proper
segments spells one way only, and a way is spelled by one name only, so that what is produced and
what is found on the disk can be told apart by name.
-/
namespace HydraClient

theorem not_mem_of_mem_splitOn {α : Type} [DecidableEq α] {a : α} {xs ys : List α}
    (h : ys ∈ xs.splitOn a) : a ∉ ys := by
  induction xs generalizing ys with
  | nil => simp_all [List.splitOn_nil]
  | cons x rest ih =>
    rw [List.splitOn_cons_eq_if_modifyHead] at h
    by_cases hx : x = a
    · rw [if_pos (by simpa using hx)] at h
      rcases List.mem_cons.1 h with rfl | h
      · exact List.not_mem_nil
      · exact ih h
    · rw [if_neg (by simpa using hx)] at h
      cases hs : rest.splitOn a with
      | nil => simp [hs] at h
      | cons first tail =>
        rw [hs] at h ih
        rcases List.mem_cons.1 h with rfl | h
        · rw [List.mem_cons, not_or]
          exact ⟨Ne.symm hx, ih (List.mem_cons_self ..)⟩
        · exact ih (List.mem_cons_of_mem _ h)

theorem exists_intercalate_cons {α : Type} (sep xs : List α) (xss : List (List α)) :
    ∃ ys, sep.intercalate (xs :: xss) = xs ++ ys := by
  cases xss with
  | nil => exact ⟨[], by simp⟩
  | cons ys rest =>
    rw [List.intercalate_cons_of_ne_nil (by simp), List.append_assoc]
    exact ⟨_, rfl⟩

theorem intercalate_append (sep : String) (init : List String) (s t : String) :
    sep.intercalate (init ++ [s ++ t]) = sep.intercalate (init ++ [s]) ++ t := by
  induction init with
  | nil => simp
  | cons a rest ih =>
    rw [List.cons_append, List.cons_append, String.intercalate_cons_of_ne_nil (by simp),
      String.intercalate_cons_of_ne_nil (by simp), ih]
    simp only [String.append_assoc]

namespace FilePath

def IsName (s : String) : Prop := s ≠ "" ∧ s ≠ "." ∧ s ≠ ".." ∧ '/' ∉ s.toList

instance : DecidablePred IsName := fun _ => inferInstanceAs (Decidable (_ ∧ _))

/-- A path of names and steps up, as every path is that was read from a text. -/
def IsSpelled (p : FilePath) : Prop := ∀ s ∈ p.segments, s ≠ ".." → IsName s

instance : DecidablePred IsSpelled := fun _ => inferInstanceAs (Decidable (∀ _ ∈ _, _ → _))

theorem isSpelled_ofText (text : String) : (ofText text).IsSpelled := by
  intro s hs hup
  obtain ⟨hsplit, hplain⟩ := List.mem_filter.1 hs
  obtain ⟨cs, hcs, rfl⟩ := List.mem_map.1 hsplit
  simp only [isPlain, Bool.and_eq_true, bne_iff_ne] at hplain
  exact ⟨hplain.1, hplain.2, hup, by simpa using not_mem_of_mem_splitOn hcs⟩

theorem collapse_mem {P : String → Prop} {l ss : List String} (hl : ∀ s ∈ l, P s)
    (hs : ∀ s ∈ ss, s ≠ ".." → P s) : ∀ s ∈ collapse l ss, P s := by
  induction ss generalizing l with
  | nil => exact hl
  | cons s rest ih =>
    have hrest : ∀ a ∈ rest, a ≠ ".." → P a := fun a ha => hs a (List.mem_cons_of_mem _ ha)
    by_cases hup : s = ".."
    · subst hup
      exact ih (fun a ha => hl a (List.dropLast_subset _ ha)) hrest
    · have hall : ∀ a ∈ l ++ [s], P a := by
        intro a ha
        rcases List.mem_append.1 ha with ha | ha
        · exact hl a ha
        · rw [List.mem_singleton.1 ha]
          exact hs s (List.mem_cons_self ..) hup
      simpa [collapse, hup] using ih hall hrest

end FilePath

namespace Disk

structure Named (d : Disk) : Prop where
  entries : ∀ l e, d.find? l = some e → ∀ s ∈ l, FilePath.IsName s
  home : ∀ s ∈ d.home, FilePath.IsName s

theorem named_iff {d : Disk} :
    d.Named ↔ (∀ e ∈ d.entries.entries, ∀ s ∈ e.1, FilePath.IsName s) ∧
      ∀ s ∈ d.home, FilePath.IsName s := by
  refine ⟨fun h => ⟨fun e he => ?_, h.home⟩, fun h => ⟨fun l e he => ?_, h.2⟩⟩
  · by_cases hl : e.1 = []
    · simp [hl]
    · exact h.entries e.1 e.2 (find?_of_mem he hl)
  · by_cases hl : l = []
    · simp [hl]
    · exact h.1 (l, e) (mem_of_find? he hl)

instance : DecidablePred Named := fun _ => decidable_of_iff _ named_iff.symm

namespace Named

variable {d d' : Disk} {l : Place} {p : FilePath}

theorem locate (h : Named d) (hp : p.IsSpelled) (hl : d.locate p = .ok l) :
    ∀ s ∈ l, FilePath.IsName s := by
  rw [eq_placeOf hl, placeOf]
  refine FilePath.collapse_mem (fun s hs => ?_) hp
  split at hs
  · cases hs
  · exact h.home s hs

theorem put {e : Entry} (h : Named d) (hl : ∀ s ∈ l, FilePath.IsName s) : Named (d.put l e) := by
  refine ⟨fun k e' hk => ?_, h.home⟩
  rw [find?_put] at hk
  split at hk
  · rename_i hkl
    rw [hkl.1]
    exact hl
  · exact h.entries k e' hk

theorem drop (h : Named d) : Named (d.drop l) := by
  refine ⟨fun k e hk => ?_, h.home⟩
  rw [find?_drop] at hk
  split at hk
  · cases hk
  · exact h.entries k e hk

theorem ensureDirectory (h : Named d) (hp : p.IsSpelled) : Named (d.ensureDirectory p).1 := by
  refine ensureDirectory_induction (P := fun a b => Named a → Named b) p (fun _ h => h)
    (fun h h' a => h' (h a)) (fun {a _ ts} hts hm ha => ?_) d h
  obtain ⟨l, hl, -, rfl⟩ := makeDirectory_ok hm
  exact ha.put (ha.locate (fun s hs => hp s (hts.subset hs)) hl)

theorem writeText (h : Named d) (hp : p.IsSpelled) (text : String) :
    Named (d.writeText p text).1 := by
  have above := h.ensureDirectory (p := p.parent)
    fun s hs => hp s (List.dropLast_subset _ hs)
  rcases writeText_cases d p text with ⟨f, hw, -⟩ | ⟨l, hl, -, -, -, hw⟩
  · rwa [hw]
  · rw [hw]
    exact above.put (above.locate hp hl)

theorem remove (h : Named d) (p : FilePath) : Named (d.remove p).1 := by
  rcases remove_cases d p with ⟨f, hr⟩ | ⟨l, c, -, -, hr⟩
  · rwa [hr]
  · rw [hr]
    exact h.drop

end Named

def EndsIn (ending : String) (way : List String) : Prop :=
  ∃ init s, way = init ++ [s ++ ending]

theorem below?_eq_some_iff {l k way : Place} : below? l k = some way ↔ k = l ++ way := by
  induction l generalizing k with
  | nil => simp [below?, eq_comm]
  | cons a rest ih =>
    cases k with
    | nil => simp [below?]
    | cons b t =>
      by_cases hab : a = b
      · simp [below?, hab, ih]
      · simp [below?, hab, Ne.symm hab]

theorem mem_contents_iff {d : Disk} {l way : Place} {e : Entry} :
    (way, e) ∈ d.contents l ↔ way ≠ [] ∧ d.find? (l ++ way) = some e := by
  simp only [contents, List.mem_mergeSort, List.mem_filterMap, Prod.exists]
  constructor
  · rintro ⟨k, e', hmem, hf⟩
    split at hf
    · cases hf
    · rename_i w hne hw
      obtain ⟨rfl, rfl⟩ := Prod.mk.inj (Option.some.inj hf)
      have hway : w ≠ [] := hne
      rw [below?_eq_some_iff.1 hw] at hmem
      exact ⟨hway, find?_of_mem hmem (by simp [hway])⟩
    · cases hf
  · rintro ⟨hway, hfind⟩
    refine ⟨l ++ way, e, mem_of_find? hfind (by simp [hway]), ?_⟩
    rw [below?_eq_some_iff.2 rfl]
    cases way with
    | nil => exact absurd rfl hway
    | cons s rest => rfl

theorem endsIn_iff {ending : String} {way : List String} :
    EndsIn ending way ↔ way ≠ [] ∧
      ending.toList.reverse.isPrefixOf (way.getLast?.getD "").toList.reverse = true := by
  rw [List.isPrefixOf_iff_prefix, List.reverse_prefix]
  constructor
  · rintro ⟨init, s, rfl⟩
    simp
  · rintro ⟨hway, suffix, hs⟩
    refine ⟨way.dropLast, String.ofList suffix, ?_⟩
    rw [← List.dropLast_append_getLast hway, List.dropLast_concat]
    congr 2
    rw [← String.toList_inj, String.toList_append, String.toList_ofList, hs,
      List.getLast?_eq_some_getLast hway]
    rfl

theorem mem_search_iff {d : Disk} {p : FilePath} {ending : String} {way : List String} :
    way ∈ d.search p ending ↔
      ∃ l, d.locate p = .ok l ∧ d.find? (l ++ way) ≠ none ∧ EndsIn ending way := by
  rw [search]
  cases hl : d.locate p with
  | error e => simp
  | ok l =>
    simp only [List.mem_filter, List.mem_map, Prod.exists, exists_and_right, exists_eq_right,
      mem_contents_iff, Except.ok.injEq, exists_eq_left', endsIn_iff]
    constructor
    · rintro ⟨⟨e, hway, he⟩, hend⟩
      exact ⟨by simp [he], hway, hend⟩
    · rintro ⟨hfind, hway, hend⟩
      obtain ⟨e, he⟩ := Option.ne_none_iff_exists'.1 hfind
      exact ⟨⟨e, hway, he⟩, hend⟩

theorem sublist_filterMap_below? (l : Place) (entries : List (Place × Entry)) :
    ((entries.filterMap fun (k, e) => match below? l k with
      | some [] => none
      | some way => some (way, e)
      | none => none).map fun x => l ++ x.1).Sublist (entries.map Prod.fst) := by
  induction entries with
  | nil => exact .slnil
  | cons x rest ih =>
    obtain ⟨k, e⟩ := x
    cases hk : below? l k with
    | none =>
      simp only [List.filterMap_cons, hk]
      exact ih.cons k
    | some way =>
      obtain rfl := below?_eq_some_iff.1 hk
      cases way with
      | nil =>
        simp only [List.filterMap_cons, hk]
        exact ih.cons _
      | cons s t =>
        simp only [List.filterMap_cons, hk]
        exact ih.cons_cons _

theorem nodup_search (d : Disk) (p : FilePath) (ending : String) :
    (d.search p ending).Nodup := by
  rw [search]
  split
  · rename_i l _
    refine List.Nodup.sublist List.filter_sublist ?_
    rw [contents, ((List.mergeSort_perm _ _).map _).nodup_iff]
    refine List.Nodup.of_map (l ++ ·) ?_
    rw [List.map_map]
    exact d.entries.distinct.sublist (sublist_filterMap_below? l d.entries.entries)
  · exact List.nodup_nil

end Disk

namespace Sync

open Disk FilePath

variable {t : Target} {d : Disk} {name name' : String} {way way' : List String}

def IsProper (name : String) : Prop :=
  ∀ s ∈ name.toList.splitOn '/', IsName (String.ofList s)

instance : DecidablePred IsProper := fun _ => inferInstanceAs (Decidable (∀ _ ∈ _, _))

/-- Whether a name spells the way to its file. -/
structure Spells (name : String) (way : List String) : Prop where
  nonempty : way ≠ []
  names : ∀ s ∈ way, IsName s
  text : String.intercalate "/" way = name ++ extension

namespace Spells

theorem nameOf (h : Spells name way) : nameOf way = name := by
  rw [Sync.nameOf, h.text, ← String.toList_inj, String.toList_ofList]
  simp [← String.length_toList]

theorem unique (h : Spells name way) (h' : Spells name' way) : name = name' :=
  h.nameOf.symm.trans h'.nameOf

theorem ofText (h : Spells name way) : ofText (name ++ extension) = ⟨"", way⟩ := by
  have htext : (name ++ extension).toList = ['/'].intercalate (way.map String.toList) := by
    rw [← h.text, String.toList_intercalate]
    rfl
  have hsplit : (name ++ extension).toList.splitOn '/' = way.map String.toList := by
    rw [htext, List.splitOn_intercalate '/' _ (by simpa using h.nonempty)]
    intro cs hcs
    obtain ⟨s, hs, rfl⟩ := List.mem_map.1 hcs
    exact (h.names s hs).2.2.2
  have hslash : (name ++ extension).toList.takeWhile (· == '/') = [] := by
    obtain ⟨s, rest, rfl⟩ := List.exists_cons_of_ne_nil h.nonempty
    obtain ⟨hempty, -, -, hs⟩ := h.names s (List.mem_cons_self ..)
    obtain ⟨c, cs, hc⟩ := List.exists_cons_of_ne_nil (mt String.toList_eq_nil_iff.1 hempty)
    obtain ⟨u, hu⟩ := exists_intercalate_cons ['/'] s.toList (rest.map String.toList)
    rw [htext, List.map_cons, hu, hc, List.cons_append]
    rw [hc, List.mem_cons, not_or] at hs
    exact List.takeWhile_cons_of_neg (by simpa using Ne.symm hs.1)
  have hplain : way.filter isPlain = way :=
    List.filter_eq_self.2 fun s hs => by simp [isPlain, (h.names s hs).1, (h.names s hs).2.1]
  rw [FilePath.ofText, hsplit, hslash]
  simp [hplain, Function.comp_def]

theorem way_unique (h : Spells name way) (h' : Spells name way') : way = way' := by
  have := h.ofText.symm.trans h'.ofText
  exact (FilePath.mk.inj this).2

theorem pathOf (h : Spells name way) (t : Target) :
    t.pathOf name = { t.directory with segments := t.directory.segments ++ way } := by
  change t.directory.join (FilePath.ofText (name ++ extension)) = _
  rw [h.ofText]
  rfl

theorem placeOf (h : Spells name way) (d : Disk) (t : Target) :
    d.placeOf (t.pathOf name) = d.placeOf t.directory ++ way := by
  have hsteps : ".." ∉ way := fun hmem => (h.names _ hmem).2.2.1 rfl
  rw [h.pathOf, placeOf_append hsteps]

theorem isSpelled (h : Spells name way) (hd : t.directory.IsSpelled) :
    (t.pathOf name).IsSpelled := by
  rw [h.pathOf]
  intro s hs hup
  rcases List.mem_append.1 hs with hs | hs
  · exact hd s hs hup
  · exact h.names s hs

/-- Different names have different files. -/
theorem name_eq (h : Spells name way) (h' : Spells name' way')
    (hp : d.placeOf (t.pathOf name) = d.placeOf (t.pathOf name')) : name = name' := by
  rw [h.placeOf, h'.placeOf] at hp
  obtain rfl := List.append_cancel_left hp
  exact h.unique h'

end Spells

theorem isName_append_extension {s : String} (h : '/' ∉ s.toList) : IsName (s ++ extension) := by
  have longer : ∀ u : String, u.toList.length < 3 → s ++ extension ≠ u := by
    rintro u hu rfl
    rw [String.toList_append, List.length_append] at hu
    have : extension.toList.length = 3 := rfl
    omega
  refine ⟨longer _ (by decide), longer _ (by decide), longer _ (by decide), ?_⟩
  simp [h, extension]

theorem exists_spells (h : IsProper name) : ∃ way, Spells name way := by
  rcases List.eq_nil_or_concat (name.toList.splitOn '/') with hnil | ⟨init, last, hsplit⟩
  · simp at hnil
  · rw [List.concat_eq_append] at hsplit
    rw [IsProper, hsplit] at h
    refine ⟨init.map String.ofList ++ [String.ofList last ++ extension], ⟨by simp, ?_, ?_⟩⟩
    · intro s hs
      rcases List.mem_append.1 hs with hs | hs
      · obtain ⟨cs, hcs, rfl⟩ := List.mem_map.1 hs
        exact h cs (List.mem_append_left _ hcs)
      · rw [List.mem_singleton.1 hs]
        exact isName_append_extension (h last (by simp)).2.2.2
    · rw [intercalate_append]
      congr 1
      have htext : ['/'].intercalate (init ++ [last]) = name.toList :=
        hsplit ▸ List.intercalate_splitOn '/'
      rw [← String.toList_inj, String.toList_intercalate, ← htext]
      simp [Function.comp_def]

theorem spells_nameOf (hn : ∀ s ∈ way, IsName s) (he : EndsIn extension way) :
    Spells (nameOf way) way := by
  obtain ⟨init, s, rfl⟩ := he
  have h : Spells (String.intercalate "/" (init ++ [s])) (init ++ [s ++ extension]) :=
    ⟨by simp, hn, intercalate_append ..⟩
  rwa [h.nameOf]

theorem managed_directory {m : String} (hm : m ∈ managed) (t : Target) :
    t.directory / m = { t.directory with segments := t.directory.segments ++ [m] } := by
  have hpath : ofText m = ⟨"", [m]⟩ := by
    revert m
    decide
  change t.directory.join (ofText m) = _
  rw [hpath]
  rfl

theorem isName_of_managed {m : String} (hm : m ∈ managed) : IsName m := by
  revert m
  decide

theorem no_steps_of_managed {m : String} (hm : m ∈ managed) : ".." ∉ [m] := by
  rw [List.mem_singleton]
  exact (isName_of_managed hm).2.2.1.symm

theorem Spells.pathOf_managed {m : String} (h : Spells name (m :: way)) (hm : m ∈ managed)
    (t : Target) : t.pathOf name =
      { t.directory / m with segments := (t.directory / m).segments ++ way } := by
  rw [h.pathOf, managed_directory hm, List.append_assoc]
  rfl

theorem Spells.placeOf_managed {m : String} (h : Spells name (m :: way)) (hm : m ∈ managed)
    (d : Disk) (t : Target) :
    d.placeOf (t.pathOf name) = d.placeOf (t.directory / m) ++ way := by
  rw [h.placeOf, managed_directory hm, placeOf_append (no_steps_of_managed hm), List.append_assoc]
  rfl

def ScriptBelow (t : Target) (d : Disk) (m : String) (l : Place) (name : String) : Prop :=
  d.isDirectory (t.directory / m) = true ∧ ∃ way, EndsIn extension way ∧
    name = nameOf (m :: way) ∧ l = d.placeOf (t.directory / m) ++ way

/-- Whether a place is that of a script below a managed directory, and what its name is. -/
def IsScript (t : Target) (d : Disk) (l : Place) (name : String) : Prop :=
  ∃ m ∈ managed, ScriptBelow t d m l name

/-- What is found below a managed directory is found by name. -/
theorem spells_found {m : String} {l : Place} (hm : m ∈ managed) (hd : Named d)
    (hl : d.find? (l ++ way) ≠ none) (hend : EndsIn extension way) :
    Spells (nameOf (m :: way)) (m :: way) := by
  obtain ⟨e, he⟩ := Option.ne_none_iff_exists'.1 hl
  obtain ⟨init, s, hway⟩ := hend
  refine spells_nameOf (List.forall_mem_cons.2 ⟨isName_of_managed hm, fun a ha => ?_⟩)
    ⟨m :: init, s, by rw [hway]; rfl⟩
  exact hd.entries _ e he a (List.mem_append_right _ ha)

theorem ScriptBelow.spells {m : String} {l : Place} (h : ScriptBelow t d m l name)
    (hm : m ∈ managed) (hd : Named d) (hl : d.find? l ≠ none) :
    l = d.placeOf (t.pathOf name) ∧ ∃ way, Spells name (m :: way) := by
  obtain ⟨-, way, hend, rfl, rfl⟩ := h
  have spelled := spells_found hm hd hl hend
  exact ⟨(spelled.placeOf_managed hm d t).symm, way, spelled⟩

def stale (t : Target) (produced : List String) (d : Disk) (m : String) : List String :=
  if d.isDirectory (t.directory / m) then
    ((d.search (t.directory / m) extension).map fun way => nameOf (m :: way)).filter
      fun n => !produced.contains n
  else []

theorem mem_stale_iff {produced : List String} {m : String} :
    name ∈ stale t produced d m ↔
      name ∉ produced ∧ ∃ l, ScriptBelow t d m l name ∧ d.find? l ≠ none := by
  rw [stale]
  split
  · rename_i hdir
    obtain ⟨k, hk, -⟩ := isDirectory_iff.1 hdir
    rw [List.mem_filter, List.mem_map, and_comm]
    refine and_congr (by simp) ⟨?_, ?_⟩
    · rintro ⟨way, hway, rfl⟩
      obtain ⟨l, hl, hfind, hend⟩ := mem_search_iff.1 hway
      exact ⟨_, ⟨hdir, way, hend, rfl, rfl⟩, eq_placeOf hl ▸ hfind⟩
    · rintro ⟨l, ⟨-, way, hend, rfl, rfl⟩, hfind⟩
      exact ⟨way, mem_search_iff.2 ⟨k, hk, eq_placeOf hk ▸ hfind, hend⟩, rfl⟩
  · rename_i hdir
    simp [ScriptBelow, hdir]

theorem nodup_stale {produced : List String} {m : String} (hm : m ∈ managed) (hd : Named d) :
    (stale t produced d m).Nodup := by
  rw [stale]
  split
  · rename_i hdir
    refine List.Nodup.sublist List.filter_sublist
      (List.Nodup.map_on ?_ (nodup_search d _ extension))
    intro way hway way' hway' heq
    have spelled : ∀ w ∈ d.search (t.directory / m) extension,
        Spells (nameOf (m :: w)) (m :: w) := by
      intro w hw
      obtain ⟨l, -, hfind, hend⟩ := mem_search_iff.1 hw
      exact spells_found hm hd hfind hend
    have := (spelled way hway).way_unique (heq ▸ spelled way' hway')
    exact (List.cons.inj this).2
  · exact List.nodup_nil

end Sync

end HydraClient
