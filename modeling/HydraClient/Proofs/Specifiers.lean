import HydraClient.ModulePath
import HydraClient.Proofs.FileNames
import Mathlib.Data.List.TakeWhile

/-! # What module specifiers lead to

A specifier is followed from the directory of the importing file, one segment after the other. It
always leads to the file that it is made for. A loader follows it only if it starts with one dot or
two and a slash, and so it does unless the way to the file begins by going down into a directory
whose name begins with two dots.
-/
namespace HydraClient.ModulePath

open FilePath (IsName)
open Sync (IsProper)

/-- Follows segments from a directory. There is no way up from the top, and an empty segment leads
nowhere. -/
def follow? (here : List String) : List String → Option (List String)
  | [] => some here
  | s :: rest =>
    if s = "" then none
    else if s = "." then follow? here rest
    else if s = ".." then if here = [] then none else follow? here.dropLast rest
    else follow? (here ++ [s]) rest

section Follow

variable {here names rest : List String} {s : String}

@[simp] theorem follow?_dot : follow? here ("." :: rest) = follow? here rest := by
  simp [follow?]

theorem follow?_down (hs : IsName s) : follow? here (s :: rest) = follow? (here ++ [s]) rest := by
  simp [follow?, hs.1, hs.2.1, hs.2.2.1]

theorem follow?_up : follow? (here ++ [s]) (".." :: rest) = follow? here rest := by
  simp [follow?]

theorem follow?_names (h : ∀ s ∈ names, IsName s) : follow? here names = some (here ++ names) := by
  induction names generalizing here with
  | nil => simp [follow?]
  | cons s names ih =>
    rw [follow?_down (h s (by simp)), ih fun s hs => h s (List.mem_cons_of_mem _ hs)]
    simp

theorem follow?_steps_up : follow? (here ++ names) (List.replicate names.length ".." ++ rest) =
    follow? here rest := by
  induction names using List.reverseRecOn with
  | nil => simp
  | append_singleton names s ih =>
    rw [List.length_append, List.length_singleton, List.replicate_succ, List.cons_append,
      ← List.append_assoc, follow?_up]
    exact ih

end Follow

/-- A way goes up from what two places share, and then down again. -/
theorem exists_route (source target : List String) : ∃ shared a b, source = shared ++ a ∧
    target = shared ++ b ∧ route source target = List.replicate a.length ".." ++ b := by
  induction source generalizing target with
  | nil => exact ⟨[], [], target, rfl, rfl, by simp [route, commonLength]⟩
  | cons s source ih =>
    cases target with
    | nil => exact ⟨[], s :: source, [], rfl, rfl, by simp [route, commonLength]⟩
    | cons t target =>
      by_cases hst : s = t
      · subst hst
        obtain ⟨shared, a, b, rfl, rfl, hroute⟩ := ih target
        refine ⟨s :: shared, a, b, rfl, rfl, ?_⟩
        rw [← hroute]
        simp [route, commonLength]
      · exact ⟨[], s :: source, t :: target, rfl, rfl, by simp [route, commonLength, hst]⟩

theorem route_append (source below : List String) : route source (source ++ below) = below := by
  induction source with
  | nil => simp [route, commonLength]
  | cons s source ih => simpa [route, commonLength] using ih

theorem segment_of_mem_route {source target : List String} {s : String}
    (ht : ∀ s ∈ target, IsName s) (hs : s ∈ route source target) : s ≠ "" ∧ '/' ∉ s.toList := by
  obtain ⟨shared, a, b, rfl, rfl, hroute⟩ := exists_route source target
  rw [hroute, List.mem_append] at hs
  rcases hs with hup | hb
  · rw [List.eq_of_mem_replicate hup]
    decide
  · have hname : IsName s := ht s (List.mem_append_right _ hb)
    exact ⟨hname.1, hname.2.2.2⟩

theorem follow?_route {source target rest : List String} (ht : ∀ s ∈ target, IsName s) :
    follow? source (route source target ++ rest) = follow? target rest := by
  obtain ⟨shared, a, b, rfl, rfl, hroute⟩ := exists_route source target
  have hb : ∀ s ∈ b, IsName s := fun s hs => ht s (List.mem_append_right _ hs)
  rw [hroute, List.append_assoc, follow?_steps_up]
  clear hroute ht
  induction b generalizing shared with
  | nil => simp
  | cons s b ih =>
    rw [List.cons_append, follow?_down (hb s (by simp)),
      ih (shared ++ [s]) fun s hs => hb s (List.mem_cons_of_mem _ hs)]
    simp

/-- The names on the way to the directory that a path lies in. -/
def folder (path : String) : List String := (splitPath path).dropLast

section Path

variable {names : List String} {base path : String}

theorem splitPath_intercalate (hne : names ≠ []) (hplain : ∀ s ∈ names, '/' ∉ s.toList) :
    splitPath (String.intercalate "/" names) = names := by
  rw [splitPath, Sync.splitOn_intercalate hne hplain]
  simp [Function.comp_def]

theorem exists_names (h : IsProper path) : ∃ names base,
    path = String.intercalate "/" (names ++ [base]) ∧ (∀ s ∈ names, IsName s) ∧ IsName base := by
  obtain ⟨names, base, rfl, hplain⟩ := Sync.exists_stretches path
  have hall := (Sync.isProper_intercalate (by simp) hplain).1 h
  exact ⟨names, base, rfl, fun s hs => hall s (List.mem_append_left _ hs), hall base (by simp)⟩

theorem folder_concat (h : ∀ s ∈ names, IsName s) (hbase : IsName base) :
    folder (String.intercalate "/" (names ++ [base])) = names := by
  have hplain : ∀ s ∈ names ++ [base], '/' ∉ s.toList := by
    intro s hs
    rcases List.mem_append.1 hs with hs | hs
    · exact (h s hs).2.2.2
    · exact List.mem_singleton.1 hs ▸ hbase.2.2.2
  rw [folder, splitPath_intercalate (by simp) hplain, List.dropLast_concat]

theorem intercalate_concat (hne : names ≠ []) (base : String) :
    String.intercalate "/" (names ++ [base]) = String.intercalate "/" names ++ "/" ++ base := by
  rw [String.intercalate_append_of_ne_nil hne (List.cons_ne_nil _ _), String.intercalate_singleton]

theorem getLast?_intercalate (hne : names ≠ []) (h : ∀ s ∈ names, IsName s) :
    ∃ c, c ≠ '/' ∧ (String.intercalate "/" names).toList.getLast? = some c := by
  obtain ⟨init, last, rfl⟩ := (List.eq_nil_or_concat names).resolve_left hne
  rw [List.concat_eq_append] at h ⊢
  have hlast : IsName last := h last (by simp)
  have htext := intercalate_append "/" init "" last
  rw [String.empty_append] at htext
  have hchars : last.toList ≠ [] := fun hnil => hlast.1 (String.toList_eq_nil_iff.1 hnil)
  obtain ⟨c, hc⟩ := Option.isSome_iff_exists.1 (List.getLast?_isSome.2 hchars)
  refine ⟨c, fun hslash => ?_, ?_⟩
  · exact hlast.2.2.2 (hslash ▸ List.mem_of_getLast? hc)
  · rw [htext, String.toList_append, List.getLast?_append, hc, Option.some_or]

theorem reverse_concat (hne : names ≠ []) (base : String) :
    (String.intercalate "/" (names ++ [base])).toList.reverse =
      base.toList.reverse ++ '/' :: (String.intercalate "/" names).toList.reverse := by
  rw [intercalate_concat hne]
  simp

theorem ne_slash_of_plain (hbase : '/' ∉ base.toList) :
    ∀ c ∈ base.toList.reverse, (c != '/') = true := by
  intro c hc
  have hne : c ≠ '/' := fun he => hbase (he ▸ List.mem_reverse.1 hc)
  simpa using hne

theorem directory_concat (hbase : '/' ∉ base.toList) (h : ∀ s ∈ names, IsName s) :
    directory (String.intercalate "/" (names ++ [base])) = String.intercalate "/" names := by
  have hstop := ne_slash_of_plain hbase
  by_cases hne : names = []
  · subst hne
    rw [List.nil_append, String.intercalate_singleton, directory,
      List.dropWhile_eq_nil_iff.2 hstop]
    rfl
  · obtain ⟨c, hc, hlast⟩ := getLast?_intercalate hne h
    obtain ⟨start, htext⟩ := List.getLast?_eq_some_iff.1 hlast
    have hhead : (String.intercalate "/" names).toList.reverse = c :: start.reverse := by
      rw [htext, List.reverse_append]
      rfl
    rw [directory, reverse_concat hne, List.dropWhile_append_of_pos hstop, hhead]
    simp only [List.dropWhile_cons, bne_self_eq_false, Bool.false_eq_true, if_false,
      beq_self_eq_true, if_true, beq_eq_false_iff_ne.2 hc, List.isEmpty_cons]
    rw [← hhead, List.reverse_reverse, String.ofList_toList]

theorem baseName_concat (hbase : '/' ∉ base.toList) :
    baseName (String.intercalate "/" (names ++ [base])) = base := by
  have hstop := ne_slash_of_plain hbase
  by_cases hne : names = []
  · subst hne
    rw [List.nil_append, String.intercalate_singleton, baseName, List.takeWhile_eq_self_iff.2 hstop]
    simp
  · rw [baseName, reverse_concat hne, List.takeWhile_append_of_pos hstop]
    simp

end Path

section Written

variable {names : List String}

def dirText (names : List String) : String :=
  if String.intercalate "/" names = "" then "." else String.intercalate "/" names

theorem splitPath_dirText (h : ∀ s ∈ names, IsName s) :
    splitPath (dirText names) = if names = [] then ["."] else names := by
  by_cases hne : names = []
  · subst hne
    decide +kernel
  · obtain ⟨c, -, hlast⟩ := getLast?_intercalate hne h
    have htext : String.intercalate "/" names ≠ "" := by
      intro hnil
      rw [hnil] at hlast
      cases hlast
    rw [dirText, if_neg htext, if_neg hne, splitPath_intercalate hne fun s hs => (h s hs).2.2.2]

theorem not_startsWith_dirText (h : ∀ s ∈ names, IsName s) :
    (dirText names).startsWith "/" = false := by
  rw [String.startsWith_string_eq_false_iff]
  rintro ⟨rest, htext⟩
  have hsplit := splitPath_dirText h
  rw [splitPath, ← htext] at hsplit
  have hempty : "" ∈ if names = [] then ["."] else names := by
    rw [← hsplit]
    refine List.mem_map.2 ⟨[], ?_, rfl⟩
    change [] ∈ ('/' :: rest).splitOn '/'
    rw [List.splitOn_cons_eq_if_modifyHead, if_pos (beq_self_eq_true '/')]
    exact List.mem_cons_self
  split at hempty
  · simp at hempty
  · exact (h "" hempty).1 rfl

theorem resolve_names (here : List String) (h : ∀ s ∈ names, IsName s) :
    resolve here names = here ++ names := by
  induction names generalizing here with
  | nil => simp [resolve]
  | cons s names ih =>
    have hs : IsName s := h s (by simp)
    have hstep : resolve here (s :: names) = resolve (here ++ [s]) names := by
      simp [resolve, hs.1, hs.2.1, hs.2.2.1]
    rw [hstep, ih (here ++ [s]) fun s hs => h s (List.mem_cons_of_mem _ hs)]
    simp

theorem locate_dirText (here : List String) (h : ∀ s ∈ names, IsName s) :
    locate here (dirText names) = here ++ names := by
  rw [locate, not_startsWith_dirText h, splitPath_dirText h]
  by_cases hne : names = []
  · subst hne
    simp [resolve]
  · rw [if_neg hne]
    simpa using resolve_names here h

theorem count_dirText (h : ∀ s ∈ names, IsName s) : (splitPath (dirText names)).count ".." = 0 := by
  rw [splitPath_dirText h, List.count_eq_zero]
  split
  · decide
  · exact fun hup => (h ".." hup).2.2.1 rfl

end Written

/-- What a specifier begins with: the own directory, unless the way goes up. -/
def leadIn : List String → List String
  | [] => ["."]
  | s :: _ => if s.startsWith ".." then [] else ["."]

section Specifier

variable {source target way : List String} {s base base' : String}

theorem eq_dot_of_mem_leadIn (h : s ∈ leadIn way) : s = "." := by
  cases way with
  | nil => simpa [leadIn] using h
  | cons first rest =>
    rw [leadIn] at h
    split at h
    · cases h
    · exact List.mem_singleton.1 h

theorem follow?_leadIn (here rest : List String) :
    follow? here (leadIn way ++ rest) = follow? here rest := by
  cases way with
  | nil => simp [leadIn]
  | cons first more =>
    rw [leadIn]
    split <;> simp

theorem startsWith_intercalate (hne : s ≠ "") (rest : List String) :
    (String.intercalate "/" (s :: rest)).startsWith ".." = s.startsWith ".." := by
  cases rest with
  | nil => rw [String.intercalate_singleton]
  | cons t rest =>
    rw [String.intercalate_cons_cons, Bool.eq_iff_iff, String.startsWith_string_iff,
      String.startsWith_string_iff, String.append_assoc, String.toList_append, String.toList_append]
    have hchars : s.toList ≠ [] := fun hnil => hne (String.toList_eq_nil_iff.1 hnil)
    -- A slash follows the first segment, so the two dots would end before it.
    match s.toList, hchars with
    | [c], _ => simp [List.cons_prefix_cons]
    | c :: d :: more, _ => simp [List.cons_prefix_cons]

theorem specifier_eq (hbase : IsName base) (hbase' : IsName base')
    (hs : ∀ s ∈ source, IsName s) (ht : ∀ s ∈ target, IsName s) :
    specifier (String.intercalate "/" (source ++ [base]))
        (String.intercalate "/" (target ++ [base'])) =
      String.intercalate "/" (leadIn (route source target) ++ route source target ++ [base']) := by
  have hhome : home [dirText source, dirText target] = [] := by
    simp [home, count_dirText hs, count_dirText ht]
  have htext : ∀ names, (if String.intercalate "/" names = "" then "." else
      String.intercalate "/" names) = dirText names := fun _ => rfl
  unfold specifier
  rw [directory_concat hbase.2.2.2 hs, directory_concat hbase'.2.2.2 ht,
    baseName_concat hbase'.2.2.2]
  simp only [htext, hhome, locate_dirText [] hs, locate_dirText [] ht, List.nil_append]
  cases hway : route source target with
  | nil => rfl
  | cons s rest =>
    have hs' : s ≠ "" := (segment_of_mem_route ht (hway ▸ List.mem_cons_self)).1
    simp only [startsWith_intercalate hs', leadIn]
    split
    · rw [List.nil_append, intercalate_concat (List.cons_ne_nil s rest)]
    · have hlead : String.intercalate "/" ("." :: (s :: rest ++ [base'])) =
          "." ++ "/" ++ String.intercalate "/" (s :: rest ++ [base']) :=
        String.intercalate_cons_of_ne_nil (by simp)
      rw [List.append_assoc, List.singleton_append, hlead, intercalate_concat (by simp)]
      simp only [String.append_assoc]
      rfl

theorem splitPath_specifier (hbase : IsName base) (hbase' : IsName base')
    (hs : ∀ s ∈ source, IsName s) (ht : ∀ s ∈ target, IsName s) :
    splitPath (specifier (String.intercalate "/" (source ++ [base]))
        (String.intercalate "/" (target ++ [base']))) =
      leadIn (route source target) ++ route source target ++ [base'] := by
  rw [specifier_eq hbase hbase' hs ht]
  refine splitPath_intercalate (by simp) ?_
  intro s hmem
  simp only [List.mem_append, List.mem_singleton] at hmem
  obtain (hmem | hmem) | rfl := hmem
  · rw [eq_dot_of_mem_leadIn hmem]
    decide
  · exact (segment_of_mem_route ht hmem).2
  · exact hbase'.2.2.2

end Specifier

/-- A loader resolves a specifier against the importing file only if it starts like this. -/
def IsRelative (specifier : String) : Prop :=
  "./".toList <+: specifier.toList ∨ "../".toList <+: specifier.toList

instance : DecidablePred IsRelative := fun _ => inferInstanceAs (Decidable (_ ∨ _))

/-- The way to the target begins by going down into a directory whose name begins with two dots. -/
def GoesUnderDots (current target : String) : Prop :=
  ∃ s rest, folder target = folder current ++ s :: rest ∧ "..".toList <+: s.toList

section Relative

variable {source target way : List String} {s base : String}

theorem isRelative_intercalate (hs : s ≠ "" ∧ '/' ∉ s.toList) (hne : way ≠ []) :
    IsRelative (String.intercalate "/" (s :: way)) ↔ s = "." ∨ s = ".." := by
  rw [String.intercalate_cons_of_ne_nil hne, IsRelative, String.append_assoc, String.toList_append,
    String.toList_append, ← String.toList_inj, ← String.toList_inj]
  obtain ⟨hchars, hplain⟩ := hs
  rw [Ne, ← String.toList_eq_nil_iff] at hchars
  match s.toList, hchars, hplain with
  | [c], _, hplain => simp [List.cons_prefix_cons, eq_comm]
  | [c, d], _, hplain =>
    simp only [List.mem_cons, List.not_mem_nil, or_false, not_or] at hplain
    simp [List.cons_prefix_cons, hplain.2, eq_comm]
  | c :: d :: e :: more, _, hplain =>
    simp only [List.mem_cons, not_or] at hplain
    simp [List.cons_prefix_cons, hplain.2.1, hplain.2.2.1, eq_comm]

/-- A way that begins with the name of a directory is taken for one that goes up if that name begins
with two dots. -/
theorem isRelative_of_way (hway : ∀ s ∈ way, s ≠ "" ∧ '/' ∉ s.toList) :
    IsRelative (String.intercalate "/" (leadIn way ++ way ++ [base])) ↔
      ¬∃ s rest, way = s :: rest ∧ s ≠ ".." ∧ "..".toList <+: s.toList := by
  have hdot : ∀ {more : List String}, more ≠ [] →
      IsRelative (String.intercalate "/" ("." :: more)) :=
    fun hne => (isRelative_intercalate (by decide) hne).2 (.inl rfl)
  cases way with
  | nil => simpa [leadIn] using hdot (List.cons_ne_nil base [])
  | cons s rest =>
    by_cases hs : s.startsWith ".." = true
    · have hdots := String.startsWith_string_iff.1 hs
      have hone : s ≠ "." := by
        rintro rfl
        revert hdots
        decide
      rw [leadIn, if_pos hs, List.nil_append, List.cons_append,
        isRelative_intercalate (hway s (by simp)) (by simp), or_iff_right hone]
      constructor
      · rintro rfl ⟨s, rest', heq, hne, -⟩
        exact hne (List.cons.inj heq).1.symm
      · intro h
        by_contra hne
        exact h ⟨s, rest, rfl, hne, hdots⟩
    · rw [leadIn, if_neg hs]
      refine iff_of_true (hdot (by simp)) ?_
      rintro ⟨s', rest', heq, -, hdots⟩
      obtain rfl := (List.cons.inj heq).1
      exact hs (String.startsWith_string_iff.2 hdots)

theorem goesUnderDots_iff {current : String} (hs : folder current = source)
    (ht : ∀ s ∈ target, IsName s) {path : String} (hpath : folder path = target) :
    GoesUnderDots current path ↔
      ∃ s rest, route source target = s :: rest ∧ s ≠ ".." ∧ "..".toList <+: s.toList := by
  rw [GoesUnderDots, hs, hpath]
  constructor
  · rintro ⟨s, rest, rfl, hdots⟩
    exact ⟨s, rest, route_append source (s :: rest), (ht s (by simp)).2.2.1, hdots⟩
  · rintro ⟨s, rest, hway, hup, hdots⟩
    obtain ⟨shared, a, b, rfl, rfl, hroute⟩ := exists_route source target
    rw [hroute] at hway
    cases a with
    | nil => exact ⟨s, rest, by simpa using hway, hdots⟩
    | cons first a =>
      rw [List.length_cons, List.replicate_succ, List.cons_append] at hway
      exact absurd (List.cons.inj hway).1.symm hup

end Relative

/-- A specifier leads from the directory of the importing file to the file it is made for, and a
loader follows it unless it begins with the name of a directory that begins with two dots. -/
theorem specifier_leads {current target : String} (hc : IsProper current) (ht : IsProper target) :
    follow? (folder current) (splitPath (specifier current target)) = some (splitPath target) ∧
      (IsRelative (specifier current target) ↔ ¬GoesUnderDots current target) := by
  obtain ⟨source, base, rfl, hsource, hbase⟩ := exists_names hc
  obtain ⟨target, base', rfl, htarget, hbase'⟩ := exists_names ht
  have hall : ∀ s ∈ target ++ [base'], IsName s :=
    List.forall_mem_append.2 ⟨htarget, List.forall_mem_singleton.2 hbase'⟩
  constructor
  · rw [splitPath_specifier hbase hbase' hsource htarget, folder_concat hsource hbase,
      List.append_assoc, follow?_leadIn, follow?_route htarget,
      follow?_names (List.forall_mem_singleton.2 hbase'),
      splitPath_intercalate (by simp) fun s hs => (hall s hs).2.2.2]
  · rw [specifier_eq hbase hbase' hsource htarget,
      isRelative_of_way fun s hs => segment_of_mem_route htarget hs,
      goesUnderDots_iff (folder_concat hsource hbase) htarget (folder_concat htarget hbase')]

theorem order_leads_to_draft :
    IsProper "interfaces/shop/Order" ∧ IsProper "interfaces/..drafts/Post" ∧
    specifier "interfaces/shop/Order" "interfaces/..drafts/Post" = "../..drafts/Post" ∧
    follow? ["interfaces", "shop"] ["..", "..drafts", "Post"] =
      some ["interfaces", "..drafts", "Post"] ∧ IsRelative "../..drafts/Post" := by
  have hc : IsProper "interfaces/shop/Order" := by decide +kernel
  have ht : IsProper "interfaces/..drafts/Post" := by decide +kernel
  have htext :
      specifier "interfaces/shop/Order" "interfaces/..drafts/Post" = "../..drafts/Post" := by
    decide +kernel
  have hcurrent : folder "interfaces/shop/Order" = ["interfaces", "shop"] := by decide +kernel
  have htarget : splitPath "interfaces/..drafts/Post" = ["interfaces", "..drafts", "Post"] := by
    decide +kernel
  have hway : splitPath "../..drafts/Post" = ["..", "..drafts", "Post"] := by decide +kernel
  obtain ⟨hleads, hrelative⟩ := specifier_leads hc ht
  rw [htext, hcurrent, htarget, hway] at hleads
  rw [htext] at hrelative
  refine ⟨hc, ht, htext, hleads, hrelative.2 ?_⟩
  rintro ⟨s, rest, hbelow, -⟩
  rw [folder, htarget, hcurrent] at hbelow
  simp at hbelow

/-- Seen from its parent, a directory with such a name is mistaken for a way up, so the text names
no file of the project. -/
theorem draft_is_not_relative : IsProper "interfaces/Order" ∧ IsProper "interfaces/..drafts/Post" ∧
    specifier "interfaces/Order" "interfaces/..drafts/Post" = "..drafts/Post" ∧
    ¬IsRelative (specifier "interfaces/Order" "interfaces/..drafts/Post") := by
  decide +kernel

end HydraClient.ModulePath
