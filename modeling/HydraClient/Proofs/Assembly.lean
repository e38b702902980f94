import HydraClient.Proofs.Exports
import Mathlib.Data.List.Sort

/-! # What a file is put together from

The fragments and the import block stand in descending order of priority, each once, and those of
one priority in order of contribution. Nothing else about the fragments decides the text.
-/
namespace HydraClient.SourceFile

section Sorting

variable {α : Type} {rank : α → Int} {l l' : List α}

private theorem rank_trans (a b c : α) (hab : decide (rank b ≤ rank a) = true)
    (hbc : decide (rank c ≤ rank b) = true) : decide (rank c ≤ rank a) = true := by
  rw [decide_eq_true_eq] at hab hbc ⊢
  omega

private theorem rank_total (a b : α) :
    (decide (rank b ≤ rank a) || decide (rank a ≤ rank b)) = true := by
  rw [Bool.or_eq_true, decide_eq_true_eq, decide_eq_true_eq]
  omega

theorem pairwise_sortByRank (rank : α → Int) (l : List α) :
    (l.mergeSort fun a b => rank b ≤ rank a).Pairwise fun a b => rank b ≤ rank a := by
  have h : (l.mergeSort fun a b => rank b ≤ rank a).Pairwise
      fun a b => decide (rank b ≤ rank a) = true :=
    List.pairwise_mergeSort rank_trans rank_total l
  exact h.imp fun h => of_decide_eq_true h

theorem filter_sortByRank (rank : α → Int) (l : List α) (p : Int) :
    (l.mergeSort fun a b => rank b ≤ rank a).filter (rank · == p) =
      l.filter (rank · == p) := by
  have htied : (l.filter (rank · == p)).Pairwise fun a b => decide (rank b ≤ rank a) = true := by
    refine List.pairwise_of_forall_mem_list fun a ha b hb => ?_
    have ha := beq_iff_eq.1 (List.mem_filter.1 ha).2
    have hb := beq_iff_eq.1 (List.mem_filter.1 hb).2
    exact decide_eq_true (by omega)
  have hsub := List.sublist_mergeSort rank_trans rank_total htied List.filter_sublist
  have hfilter := hsub.filter (rank · == p)
  rw [List.filter_filter] at hfilter
  simp only [Bool.and_self] at hfilter
  exact (hfilter.eq_of_length ((List.mergeSort_perm l _).filter _).length_eq.symm).symm

private theorem rank_le_of_filter_eq {a b : α} (hb : ∀ c ∈ l', rank c ≤ rank b)
    (h : (a :: l).filter (rank · == rank a) = (b :: l').filter (rank · == rank a)) :
    rank a ≤ rank b := by
  have ha : a ∈ (b :: l').filter (rank · == rank a) := h ▸ by simp
  rcases List.mem_cons.1 (List.mem_filter.1 ha).1 with rfl | ha
  · exact Int.le_refl _
  · exact hb a ha

/-- A list in descending order is determined by what it holds of each rank. -/
theorem eq_of_filter_eq (hl : l.Pairwise fun a b => rank b ≤ rank a)
    (hl' : l'.Pairwise fun a b => rank b ≤ rank a)
    (h : ∀ p, l.filter (rank · == p) = l'.filter (rank · == p)) : l = l' := by
  induction l generalizing l' with
  | nil =>
    cases l' with
    | nil => rfl
    | cons b l' => simpa using h (rank b)
  | cons a l ih =>
    cases l' with
    | nil => simpa using h (rank a)
    | cons b l' =>
      rw [List.pairwise_cons] at hl hl'
      have hrank : rank a = rank b := Int.le_antisymm
        (rank_le_of_filter_eq hl'.1 (h (rank a))) (rank_le_of_filter_eq hl.1 (h (rank b)).symm)
      obtain rfl : a = b := by
        have := h (rank a)
        rw [List.filter_cons_of_pos (by simp), List.filter_cons_of_pos (by simp [hrank])] at this
        exact (List.cons.inj this).1
      rw [ih hl.2 hl'.2 fun p => ?_]
      have := h p
      simp only [List.filter_cons] at this
      split at this
      · exact (List.cons.inj this).2
      · exact this

end Sorting

def statement (file : String) (group : String × List String) : String :=
  "import \x7b " ++ String.intercalate ", " group.2 ++ " \x7d from " ++
    Json.quote (ModulePath.specifier file group.1) ++ ";"

def importFragment (file : String) (groups : List (String × List String)) : List Fragment :=
  if groups = [] then []
  else [{ body := String.intercalate "\n" (groups.map (statement file)), priority := 1100 }]

/-- The files that a file takes names from, in order, with the names taken by any fragment. -/
structure Gathers (file : String) (fragments : List Fragment)
    (groups : List (String × List String)) : Prop where
  targets : (groups.map Prod.fst).Pairwise (· < ·)
  names : ∀ g ∈ groups, g.2 ≠ [] ∧ g.2.Pairwise (· < ·)
  mem : ∀ target name, (∃ g ∈ groups, g.1 = target ∧ name ∈ g.2) ↔
    target ≠ file ∧ ∃ f ∈ fragments, f.imports.Takes target name

def groupsOf (file : String) (imports : Imports) : List (String × List String) :=
  imports.toList.filterMap fun (target, names) =>
    if target = file || names.isEmpty then none else some (target, names.toList)

theorem importBlock_eq (file : String) (imports : Imports) :
    ModulePath.importBlock file imports =
      String.intercalate "\n" ((groupsOf file imports).map (statement file)) := by
  rw [ModulePath.importBlock, groupsOf, List.map_filterMap]
  refine congrArg _ (congrArg (List.filterMap · _) (funext fun ⟨target, names⟩ => ?_))
  by_cases h : (decide (target = file) || names.isEmpty) = true
  · simp only [h, if_true, Option.map_none]
  · simp only [h]
    rfl

theorem mem_groupsOf {file : String} {imports : Imports} {g : String × List String} :
    g ∈ groupsOf file imports ↔
      ∃ h ∈ imports.toList, h.1 ≠ file ∧ h.2.toList ≠ [] ∧ g = (h.1, h.2.toList) := by
  rw [groupsOf, List.mem_filterMap]
  refine exists_congr fun h => and_congr_right fun _ => ?_
  by_cases hfile : h.1 = file
  · simp [hfile]
  · by_cases hnames : h.2.toList = []
    · simp [NameSet.isEmpty, hnames]
    · simp [NameSet.isEmpty, hfile, hnames, eq_comm (a := g)]

theorem gathers_groupsOf (file : String) (fragments : List Fragment) :
    Gathers file fragments (groupsOf file (importsOf fragments)) where
  targets := by
    rw [groupsOf, List.pairwise_map]
    refine (List.pairwise_map.1 (importsOf fragments).sorted).filterMap _ ?_
    rintro ⟨target, names⟩ ⟨target', names'⟩ hlt g hg g' hg'
    obtain ⟨-, ⟨⟩⟩ := Option.ite_none_left_eq_some.1 hg
    obtain ⟨-, ⟨⟩⟩ := Option.ite_none_left_eq_some.1 hg'
    exact hlt
  names := by
    rintro g hg
    obtain ⟨h, -, -, hne, rfl⟩ := mem_groupsOf.1 hg
    exact ⟨hne, h.2.sorted⟩
  mem target name := by
    rw [← takes_importsOf]
    constructor
    · rintro ⟨g, hg, rfl, hname⟩
      obtain ⟨h, hh, hfile, -, rfl⟩ := mem_groupsOf.1 hg
      exact ⟨hfile, h, hh, rfl, hname⟩
    · rintro ⟨hfile, h, hh, rfl, hname⟩
      exact ⟨_, mem_groupsOf.2 ⟨h, hh, hfile, List.ne_nil_of_mem hname, rfl⟩, rfl, hname⟩

section Unique

variable {file : String} {fragments fragments' : List Fragment}
  {groups groups' : List (String × List String)}

theorem Gathers.mem_names (h : Gathers file fragments groups) {g : String × List String}
    (hg : g ∈ groups) (name : String) :
    name ∈ g.2 ↔ g.1 ≠ file ∧ ∃ f ∈ fragments, f.imports.Takes g.1 name := by
  rw [← h.mem]
  constructor
  · intro hname
    exact ⟨g, hg, rfl, hname⟩
  · rintro ⟨g', hg', htarget, hname⟩
    have hnodup : (groups.map Prod.fst).Nodup := h.targets.imp String.ne_of_lt
    rwa [← List.inj_on_of_nodup_map hnodup hg' hg htarget]

theorem Gathers.mem_of_mem (h : Gathers file fragments groups)
    (h' : Gathers file fragments' groups') (hmem : ∀ f, f ∈ fragments ↔ f ∈ fragments')
    {g : String × List String} (hg : g ∈ groups) : g ∈ groups' := by
  obtain ⟨name, hname⟩ := List.exists_mem_of_ne_nil _ (h.names g hg).1
  have htaken := (h.mem_names hg name).1 hname
  simp only [hmem] at htaken
  obtain ⟨g', hg', htarget, -⟩ := (h'.mem g.1 name).2 htaken
  have hnames : g'.2 = g.2 := by
    refine (h'.names g' hg').2.eq_of_mem_iff (h.names g hg).2 fun n => ?_
    rw [h'.mem_names hg', h.mem_names hg, htarget]
    simp only [hmem]
  obtain rfl : g' = g := Prod.ext htarget hnames
  exact hg'

theorem Gathers.unique (h : Gathers file fragments groups)
    (h' : Gathers file fragments' groups') (hmem : ∀ f, f ∈ fragments ↔ f ∈ fragments') :
    groups = groups' := by
  have hsub : ∀ g, g ∈ groups ↔ g ∈ groups' := fun g =>
    ⟨h.mem_of_mem h' hmem, h'.mem_of_mem h fun f => (hmem f).symm⟩
  have : Std.Irrefl fun a b : String × List String => a.1 < b.1 := ⟨fun a => String.lt_irrefl a.1⟩
  have : Std.Antisymm fun a b : String × List String => a.1 < b.1 :=
    ⟨fun a b hab hba => absurd (String.lt_trans hab hba) (String.lt_irrefl a.1)⟩
  exact (List.pairwise_map.1 h.targets).eq_of_mem_iff (List.pairwise_map.1 h'.targets) hsub

end Unique

structure Tight (s : String) : Prop where
  first : ∃ c rest, s.toList = c :: rest ∧ c ≠ '\n'
  last : ∃ rest c, s.toList = rest ++ [c] ∧ c ≠ '\n'

namespace Tight

variable {s t : String}

theorem ne_empty (h : Tight s) : s ≠ "" := by
  obtain ⟨c, rest, hs, -⟩ := h.first
  rintro rfl
  cases hs

theorem append (hs : Tight s) (ht : Tight t) (sep : String) : Tight (s ++ sep ++ t) where
  first := by
    obtain ⟨c, rest, hs, hc⟩ := hs.first
    exact ⟨c, rest ++ sep.toList ++ t.toList, by simp [hs], hc⟩
  last := by
    obtain ⟨rest, c, ht, hc⟩ := ht.last
    exact ⟨s.toList ++ sep.toList ++ rest, c, by simp [ht], hc⟩

theorem intercalate (sep : String) {texts : List String} (hne : texts ≠ [])
    (h : ∀ t ∈ texts, Tight t) : Tight (String.intercalate sep texts) := by
  induction texts with
  | nil => exact absurd rfl hne
  | cons t rest ih =>
    have ht := h t List.mem_cons_self
    by_cases hrest : rest = []
    · rw [hrest, String.intercalate_singleton]
      exact ht
    · rw [String.intercalate_cons_of_ne_nil hrest]
      exact ht.append (ih hrest fun u hu => h u (List.mem_cons_of_mem t hu)) sep

theorem trimLines_eq (h : Tight s) : Text.trimLines s = s := by
  obtain ⟨c, rest, hfirst, hc⟩ := h.first
  obtain ⟨rest', c', hlast, hc'⟩ := h.last
  rw [Text.trimLines, Text.trimWhere_eq_self, String.ofList_toList]
  · intro a ha
    rw [hfirst, List.head?_cons, Option.some.injEq] at ha
    simpa [← ha] using hc
  · intro a ha
    rw [hlast, List.getLast?_append, List.getLast?_singleton, Option.some_or,
      Option.some.injEq] at ha
    simpa [← ha] using hc'

theorem of_trimLines (h : Text.trimLines s ≠ "") : Tight (Text.trimLines s) := by
  have hlist : (Text.trimLines s).toList = Text.trimWhere (· == '\n') s.toList :=
    String.toList_ofList
  have hne : Text.trimWhere (· == '\n') s.toList ≠ [] := by
    rintro hnil
    exact h (by rw [Text.trimLines, hnil])
  constructor
  · obtain ⟨c, rest, hc⟩ := List.exists_cons_of_ne_nil hne
    have hplain : (c == '\n') = false :=
      Text.not_of_head?_trimWhere (p := (· == '\n')) (by rw [hc, List.head?_cons])
    exact ⟨c, rest, hlist.trans hc, by simpa using hplain⟩
  · obtain ⟨rest, c, hc⟩ := (List.eq_nil_or_concat _).resolve_left hne
    rw [List.concat_eq_append] at hc
    have hplain : (c == '\n') = false :=
      Text.not_of_getLast?_trimWhere (p := (· == '\n')) (by rw [hc, List.getLast?_concat])
    exact ⟨rest, c, by rw [hlist, hc], by simpa using hplain⟩

end Tight

theorem tight_statement (file : String) (group : String × List String) :
    Tight (statement file group) where
  first := by
    refine ⟨'i', ("mport \x7b " ++ String.intercalate ", " group.2 ++ " \x7d from " ++
      Json.quote (ModulePath.specifier file group.1) ++ ";").toList, ?_, by decide⟩
    simp only [statement, String.toList_append]
    rfl
  last := ⟨_, ';', String.toList_append, by decide⟩

theorem tight_importBlock {file : String} {groups : List (String × List String)}
    (h : groups ≠ []) : Tight (String.intercalate "\n" (groups.map (statement file))) := by
  refine Tight.intercalate "\n" (by simpa using h) fun t ht => ?_
  obtain ⟨group, -, rfl⟩ := List.mem_map.1 ht
  exact tight_statement file group

def bodies (parts : List Fragment) : List String :=
  (parts.map fun f => Text.trimLines f.body).filter (· != "")

/-- The order in which the fragments of a file are written, and the import block with them. -/
structure Layout (file : String) (fragments parts : List Fragment)
    (groups : List (String × List String)) : Prop where
  gathers : Gathers file fragments groups
  perm : parts.Perm (fragments ++ importFragment file groups)
  descending : parts.Pairwise fun a b => b.priority ≤ a.priority
  stable : ∀ p, parts.filter (·.priority == p) =
    (fragments ++ importFragment file groups).filter (·.priority == p)

theorem layout_ordered (file : String) (fragments : List Fragment) :
    Layout file fragments (ordered file fragments) (groupsOf file (importsOf fragments)) := by
  have hordered : ordered file fragments =
      (fragments ++ importFragment file (groupsOf file (importsOf fragments))).mergeSort
        fun a b => b.priority ≤ a.priority := by
    rw [ordered, importFragment, importBlock_eq]
    by_cases hgroups : groupsOf file (importsOf fragments) = []
    · simp [hgroups]
    · simp only [(tight_importBlock hgroups).ne_empty, hgroups, if_false]
      rfl
  exact {
    gathers := gathers_groupsOf file fragments
    perm := hordered ▸ List.mergeSort_perm _ _
    descending := hordered ▸ pairwise_sortByRank Fragment.priority _
    stable := hordered ▸ filter_sortByRank Fragment.priority _ }

/-- Fragments that agree on every priority are laid out alike. -/
theorem Layout.unique {file : String} {fragments fragments' parts parts' : List Fragment}
    {groups groups' : List (String × List String)} (h : Layout file fragments parts groups)
    (h' : Layout file fragments' parts' groups')
    (heq : ∀ p, fragments.filter (·.priority == p) = fragments'.filter (·.priority == p)) :
    parts = parts' := by
  have hmem : ∀ f, f ∈ fragments ↔ f ∈ fragments' := by
    intro f
    have hpart : ∀ l : List Fragment, f ∈ l ↔ f ∈ l.filter (·.priority == f.priority) := by
      simp [List.mem_filter]
    rw [hpart fragments, heq, ← hpart]
  obtain rfl := h.gathers.unique h'.gathers hmem
  refine eq_of_filter_eq h.descending h'.descending fun p => ?_
  rw [h.stable, h'.stable, List.filter_append, List.filter_append, heq]

theorem tight_bodies {parts : List Fragment} (h : bodies parts ≠ []) :
    Tight (String.intercalate "\n\n" (bodies parts)) := by
  refine Tight.intercalate "\n\n" h fun t ht => ?_
  obtain ⟨ht, hne⟩ := List.mem_filter.1 ht
  obtain ⟨f, -, rfl⟩ := List.mem_map.1 ht
  exact Tight.of_trimLines (by simpa using hne)

theorem assemble_eq (file : String) (fragments : List Fragment) :
    assemble file fragments =
      if bodies (ordered file fragments) = [] then ""
      else String.intercalate "\n\n" (bodies (ordered file fragments)) ++ "\n" := by
  have hassemble : assemble file fragments =
      if Text.trimLines (String.intercalate "\n\n" (bodies (ordered file fragments))) = "" then ""
      else Text.trimLines (String.intercalate "\n\n" (bodies (ordered file fragments))) ++ "\n" :=
    rfl
  rw [hassemble]
  by_cases hbodies : bodies (ordered file fragments) = []
  · rw [hbodies]
    rfl
  · have htight := tight_bodies hbodies
    rw [htight.trimLines_eq, if_neg htight.ne_empty, if_neg hbodies]

/-- A file holds the bodies of its fragments and the import block, each of them once, with an empty
line between. Only the order within each priority counts. -/
theorem assemble_faithful (file : String) (fragments : List Fragment) :
    (∃ parts groups, Layout file fragments parts groups ∧
      assemble file fragments = if bodies parts = [] then ""
        else String.intercalate "\n\n" (bodies parts) ++ "\n") ∧
    (assemble file fragments = "" ∨
      (∃ c rest, (assemble file fragments).toList = c :: rest ∧ c ≠ '\n') ∧
      ∃ rest c, (assemble file fragments).toList = rest ++ [c, '\n'] ∧ c ≠ '\n') ∧
    ∀ fragments', (∀ p, fragments.filter (·.priority == p) = fragments'.filter (·.priority == p)) →
      assemble file fragments = assemble file fragments' := by
  refine ⟨⟨_, _, layout_ordered file fragments, assemble_eq file fragments⟩, ?_,
    fun fragments' heq => ?_⟩
  · rw [assemble_eq]
    by_cases hbodies : bodies (ordered file fragments) = []
    · exact .inl (if_pos hbodies)
    · rw [if_neg hbodies, String.toList_append]
      have htight := tight_bodies hbodies
      obtain ⟨c, rest, hfirst, hc⟩ := htight.first
      obtain ⟨rest', c', hlast, hc'⟩ := htight.last
      refine .inr ⟨⟨c, rest ++ ['\n'], by rw [hfirst]; rfl, hc⟩, rest', c', ?_, hc'⟩
      rw [hlast, List.append_assoc]
      rfl
  · rw [assemble_eq, assemble_eq, (layout_ordered file fragments).unique
      (layout_ordered file fragments') heq]

theorem assemble_reordered :
    let decl : Fragment :=
      { body := "\nexport type A = B;\n\n", imports := .ofList [("types/B", ["B"])] }
    let list : Fragment := { body := "const list = 1;", priority := endpointPriority }
    let get : Fragment := { body := "const get = 2;", priority := endpointPriority }
    (∀ p, [decl, list, get].filter (·.priority == p) =
        [list, decl, get].filter (·.priority == p)) ∧
      assemble "types/A" [decl, list, get] = assemble "types/A" [list, decl, get] := by
  intro decl list get
  have heq : ∀ p, [decl, list, get].filter (·.priority == p) =
      [list, decl, get].filter (·.priority == p) := by
    intro p
    by_cases hp : p = endpointPriority
    · subst hp
      rfl
    · have hlist : (list.priority == p) = false := beq_eq_false_iff_ne.2 (Ne.symm hp)
      simp only [List.filter_cons, hlist, Bool.false_eq_true, if_false]
  exact ⟨heq, (assemble_faithful "types/A" [decl, list, get]).2.2 _ heq⟩

end HydraClient.SourceFile
