import HydraClient.SourceFile

/-! # Exports

A text exports a name if one of its lines starts with the declaration of the name. Putting files
together keeps every line but empty ones at the ends, so a file exports what its fragments export.
-/
namespace HydraClient

def declarators : List String := ["interface", "type", "enum", "const", "function"]

/-- A line of the text starts with the declaration of a name. -/
def Exports (text n : String) : Prop :=
  ∃ (before after : List Char) (word stop : String), word ∈ declarators ∧ stop ∈ [" ", "<", "("] ∧
    (before = [] ∨ before.getLast? = some '\n') ∧
    text.toList = before ++ ("export " ++ word ++ " " ++ n ++ stop).toList ++ after

namespace Exports

variable {text n : String}

theorem ne_empty (h : Exports text n) : text ≠ "" := by
  obtain ⟨before, after, word, stop, -, -, -, htext⟩ := h
  rintro rfl
  simp at htext

theorem line (word stop rest : String) (hword : word ∈ declarators) (hstop : stop ∈ [" ", "<", "("])
    (h : text = "export " ++ word ++ " " ++ n ++ stop ++ rest) : Exports text n := by
  refine ⟨[], rest.toList, word, stop, hword, hstop, .inl rfl, ?_⟩
  rw [h, String.toList_append, List.nil_append]

theorem append (h : Exports text n) (rest : String) : Exports (text ++ rest) n := by
  obtain ⟨before, after, word, stop, hword, hstop, hbefore, htext⟩ := h
  refine ⟨before, after ++ rest.toList, word, stop, hword, hstop, hbefore, ?_⟩
  rw [String.toList_append, htext, List.append_assoc]

theorem prepend (h : Exports text n) {start : String}
    (hstart : start = "" ∨ start.toList.getLast? = some '\n') : Exports (start ++ text) n := by
  obtain ⟨before, after, word, stop, hword, hstop, hbefore, htext⟩ := h
  refine ⟨start.toList ++ before, after, word, stop, hword, hstop, ?_, ?_⟩
  · rcases hbefore with rfl | hbefore
    · rcases hstart with rfl | hstart
      · exact .inl rfl
      · exact .inr (by simpa using hstart)
    · exact .inr (by rw [List.getLast?_append, hbefore, Option.some_or])
  · rw [String.toList_append, htext]
    simp only [List.append_assoc]

theorem intercalate {texts : List String} {sep : String} (h : Exports text n)
    (hmem : text ∈ texts) (hsep : sep.toList.getLast? = some '\n') :
    Exports (String.intercalate sep texts) n := by
  induction texts with
  | nil => cases hmem
  | cons t rest ih =>
    cases rest with
    | nil =>
      obtain rfl := List.mem_singleton.1 hmem
      exact h
    | cons u rest =>
      rw [String.intercalate_cons_cons]
      rcases List.mem_cons.1 hmem with rfl | hmem
      · rw [String.append_assoc]
        exact h.append _
      · refine (ih hmem).prepend (.inr ?_)
        rw [String.toList_append, List.getLast?_append, hsep, Option.some_or]

theorem dropWhile_before {p : Char → Bool} {c : Char} (hc : p c = false) (l rest : List Char) :
    (l ++ c :: rest).dropWhile p = l.dropWhile p ++ c :: rest := by
  induction l with
  | nil => simp [hc]
  | cons a l ih =>
    by_cases ha : p a = true
    · simpa [List.dropWhile_cons, ha] using ih
    · simp [ha]

theorem trimWhere_around {p : Char → Bool} {c c' : Char} {block init rest : List Char}
    (hc : p c = false) (hc' : p c' = false) (hstart : block = c :: rest)
    (hend : block = init ++ [c']) (before after : List Char) :
    ∃ after', Text.trimWhere p (before ++ block ++ after) =
      before.dropWhile p ++ block ++ after' := by
  refine ⟨(after.reverse.dropWhile p).reverse, ?_⟩
  have hfirst : (before ++ block ++ after).dropWhile p = before.dropWhile p ++ block ++ after := by
    rw [hstart]
    simpa using dropWhile_before hc before (rest ++ after)
  have hlast := dropWhile_before hc' after.reverse (before.dropWhile p ++ init).reverse
  rw [Text.trimWhere, hfirst, hend]
  simp only [List.append_assoc, List.reverse_append, List.reverse_cons, List.nil_append,
    List.cons_append] at hlast ⊢
  rw [hlast]
  simp

theorem trimLines (h : Exports text n) : Exports (Text.trimLines text) n := by
  obtain ⟨before, after, word, stop, hword, hstop, hbefore, htext⟩ := h
  obtain ⟨c', hstop', hc'⟩ : ∃ c', stop.toList = [c'] ∧ (c' == '\n') = false := by
    simp only [List.mem_cons, List.not_mem_nil, or_false] at hstop
    rcases hstop with rfl | rfl | rfl
    · exact ⟨' ', rfl, rfl⟩
    · exact ⟨'<', rfl, rfl⟩
    · exact ⟨'(', rfl, rfl⟩
  have hhead : ("export " ++ word ++ " " ++ n ++ stop).toList =
      'e' :: ("xport " ++ word ++ " " ++ n).toList ++ [c'] := by
    simp only [String.toList_append, hstop', List.append_assoc, List.cons_append]
    rfl
  have hc : ('e' == '\n') = false := rfl
  rw [hhead] at htext
  have hstart : 'e' :: ("xport " ++ word ++ " " ++ n).toList ++ [c'] =
      'e' :: (("xport " ++ word ++ " " ++ n).toList ++ [c']) := rfl
  obtain ⟨after', htrim⟩ := trimWhere_around (p := (· == '\n')) hc hc' hstart rfl before after
  refine ⟨before.dropWhile (· == '\n'), after', word, stop, hword, hstop, ?_, ?_⟩
  · rcases hd : before.dropWhile (· == '\n') with _ | ⟨a, rest⟩
    · exact .inl rfl
    · obtain ⟨init, hinit⟩ := List.dropWhile_suffix (l := before) (· == '\n')
      rw [hd] at hinit
      rcases hbefore with rfl | hbefore
      · simp at hinit
      · rw [← hinit, List.getLast?_append] at hbefore
        cases hr : (a :: rest).getLast? with
        | none => simp at hr
        | some x => simpa [hr] using hbefore
  · rw [hhead, Text.trimLines, String.toList_ofList, htext, htrim]

end Exports

structure Assembled (P : String → Prop) : Prop where
  nonempty : ¬P ""
  append : ∀ {text}, P text → ∀ rest, P (text ++ rest)
  trimLines : ∀ {text}, P text → P (Text.trimLines text)
  intercalate : ∀ {text texts}, P text → text ∈ texts → P (String.intercalate "\n\n" texts)

theorem Assembled.ne_empty {P : String → Prop} {text : String} (hP : Assembled P) (h : P text) :
    text ≠ "" := by
  rintro rfl
  exact hP.nonempty h

theorem Exports.assembled (n : String) : Assembled (Exports · n) where
  nonempty h := h.ne_empty rfl
  append h := h.append
  trimLines h := h.trimLines
  intercalate h hmem := h.intercalate hmem (by decide)

/-- A produced file with a line that declares a name. -/
def FileSet.Exported (s : FileSet) (file n : String) : Prop :=
  ∃ text, s.assemble.get? file = some text ∧ Exports text n

def FileSet.ImportsFrom (s : FileSet) (file target n : String) : Prop :=
  target ≠ file ∧ (SourceFile.importsOf (s.fragments file)).Takes target n

namespace SourceFile

variable {file n : String} {f : Fragment} {fragments : List Fragment}

theorem takes_importsOf {target : String} :
    (importsOf fragments).Takes target n ↔ ∃ f ∈ fragments, f.imports.Takes target n := by
  rw [importsOf, Imports.takes_foldl_merge]
  exact or_iff_right (Imports.not_takes_empty target n)

theorem mem_ordered (hf : f ∈ fragments) : f ∈ ordered file fragments := by
  unfold ordered
  rw [List.mem_mergeSort]
  split
  · exact hf
  · exact List.mem_append_left _ hf

theorem assemble_nil (file : String) : assemble file [] = "" := by
  have hblock : ModulePath.importBlock file (importsOf []) = "" := rfl
  have htrim : Text.trimLines "" = "" := by decide
  rw [assemble, ordered, hblock]
  simp [htrim]

theorem assemble_of_fragment {P : String → Prop} (hP : Assembled P) (hf : f ∈ fragments)
    (h : P f.body) : P (assemble file fragments) := by
  have hbody := hP.trimLines h
  have hmem : Text.trimLines f.body ∈
      ((ordered file fragments).map fun f => Text.trimLines f.body).filter (· != "") := by
    refine List.mem_filter.2 ⟨List.mem_map.2 ⟨f, mem_ordered hf, rfl⟩, ?_⟩
    simpa using hP.ne_empty hbody
  have hjoined := hP.trimLines (hP.intercalate hbody hmem)
  rw [assemble, if_neg (hP.ne_empty hjoined)]
  exact hP.append hjoined "\n"

end SourceFile

namespace FileSet

variable {s : FileSet} {file n : String} {f : Fragment}

theorem get?_assemble {text : String} : s.assemble.get? file = some text ↔
    text ≠ "" ∧ ∃ fragments, s.get? file = some fragments ∧
      SourceFile.assemble file fragments = text := by
  have hkeys : ((s.entries.filterMap fun e =>
      if SourceFile.assemble e.1 e.2 = "" then none
      else some (e.1, SourceFile.assemble e.1 e.2)).map Prod.fst).Nodup := by
    have hsub : List.Sublist ((s.entries.filterMap fun e =>
        if SourceFile.assemble e.1 e.2 = "" then none
        else some (e.1, SourceFile.assemble e.1 e.2)).map Prod.fst) (s.entries.map Prod.fst) := by
      induction s.entries with
      | nil => simp
      | cons e rest ih =>
        by_cases he : SourceFile.assemble e.1 e.2 = ""
        · simpa [he] using ih.cons e.1
        · simpa [he] using ih
    exact s.distinct.sublist hsub
  rw [assemble, OrderedMap.get?_ofList_of_nodup hkeys, List.mem_filterMap]
  constructor
  · rintro ⟨⟨file', fragments⟩, hmem, h⟩
    dsimp only at h
    split at h
    · cases h
    · rename_i hne
      obtain ⟨rfl, rfl⟩ := Prod.mk.inj (Option.some.inj h)
      exact ⟨hne, fragments, OrderedMap.mem_entries_iff.1 hmem, rfl⟩
  · rintro ⟨hne, fragments, hmem, rfl⟩
    exact ⟨(file, fragments), OrderedMap.mem_entries_iff.2 hmem, by simp [hne]⟩

theorem get?_assemble_congr {s' : FileSet} (h : s'.fragments file = s.fragments file) :
    s'.assemble.get? file = s.assemble.get? file := by
  have hfragments : ∀ {s : FileSet} {text : String}, s.assemble.get? file = some text ↔
      text ≠ "" ∧ SourceFile.assemble file (s.fragments file) = text := by
    intro s text
    rw [get?_assemble, fragments]
    cases s.get? file with
    | none =>
      rw [Option.getD_none, SourceFile.assemble_nil]
      constructor
      · rintro ⟨-, fragments, hnone, -⟩
        cases hnone
      · rintro ⟨hne, htext⟩
        exact absurd htext.symm hne
    | some fragments => simp
  refine Option.ext fun text => ?_
  rw [hfragments, hfragments, h]

theorem exists_fragment_of_mem_keys (h : file ∈ s.assemble.keys) : ∃ f, f ∈ s.fragments file := by
  obtain ⟨text, htext⟩ := OrderedMap.mem_keys_iff.1 h
  obtain ⟨hne, fragments, hfragments, rfl⟩ := get?_assemble.1 htext
  rw [FileSet.fragments, hfragments]
  refine List.exists_mem_of_ne_nil _ fun hnil => hne ?_
  obtain rfl : fragments = [] := hnil
  exact SourceFile.assemble_nil file

theorem exists_text_of_fragment {P : String → Prop} (hP : Assembled P)
    (hf : f ∈ s.fragments file) (h : P f.body) : ∃ text, s.assemble.get? file = some text ∧
      P text := by
  rw [fragments] at hf
  cases hs : s.get? file with
  | none => simp [hs] at hf
  | some fragments =>
    rw [hs, Option.getD_some] at hf
    have hassembled : P (SourceFile.assemble file fragments) :=
      SourceFile.assemble_of_fragment hP hf h
    exact ⟨_, get?_assemble.2 ⟨hP.ne_empty hassembled, fragments, hs, rfl⟩, hassembled⟩

theorem exported_of_fragment (hf : f ∈ s.fragments file) (h : Exports f.body n) :
    s.Exported file n := exists_text_of_fragment (Exports.assembled n) hf h

end FileSet
end HydraClient
