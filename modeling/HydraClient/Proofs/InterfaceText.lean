import HydraClient.Proofs.Generation

/-! # The text of interfaces in produced files

Every interface of a class is written, as one block of lines, into the file that it is filed under.
-/
namespace HydraClient

open TypeRegistry

def StandsIn (block text : String) : Prop := block.toList <:+: text.toList

structure Solid (block : String) : Prop where
  head : ∃ c rest, block.toList = c :: rest ∧ c ≠ '\n'
  last : ∃ init c, block.toList = init ++ [c] ∧ c ≠ '\n'

namespace StandsIn

variable {block text : String}

theorem refl (text : String) : StandsIn text text := List.infix_refl _

theorem append (h : StandsIn block text) (rest : String) : StandsIn block (text ++ rest) := by
  rw [StandsIn, String.toList_append]
  exact h.trans (List.infix_append_left)

theorem prepend (h : StandsIn block text) (start : String) : StandsIn block (start ++ text) := by
  rw [StandsIn, String.toList_append]
  exact h.trans (List.infix_append_right)

theorem intercalate {sep : String} {texts : List String} (h : StandsIn block text)
    (hmem : text ∈ texts) : StandsIn block (String.intercalate sep texts) := by
  induction texts with
  | nil => cases hmem
  | cons t rest ih =>
    cases rest with
    | nil =>
      obtain rfl := List.mem_singleton.1 hmem
      exact h
    | cons u rest =>
      rw [String.intercalate_cons_cons]
      rcases List.mem_cons.1 hmem with rfl | hmem
      · exact (h.append sep).append _
      · exact (ih hmem).prepend _

theorem assembled (hblock : Solid block) : Assembled (StandsIn block ·) where
  nonempty h := by
    obtain ⟨c, rest, hc, -⟩ := hblock.head
    rw [StandsIn, hc] at h
    exact absurd (List.infix_nil.1 h) nofun
  append h := h.append
  trimLines {text} h := by
    obtain ⟨c, rest, hstart, hc⟩ := hblock.head
    obtain ⟨init, c', hend, hc'⟩ := hblock.last
    obtain ⟨before, after, htext⟩ := h
    obtain ⟨after', htrim⟩ := Exports.trimWhere_around (p := (· == '\n')) (by simpa using hc)
      (by simpa using hc') hstart hend before after
    rw [htext] at htrim
    rw [StandsIn, Text.trimLines, String.toList_ofList, htrim]
    exact ⟨_, _, rfl⟩
  intercalate h hmem := h.intercalate hmem

end StandsIn

theorem exists_intercalate_append (sep : String) {lines : List String} (hne : lines ≠ [])
    (more : List String) : ∃ rest, String.intercalate sep (lines ++ more) =
      String.intercalate sep lines ++ rest := by
  by_cases hmore : more = []
  · exact ⟨"", by simp [hmore]⟩
  · refine ⟨sep ++ String.intercalate sep more, ?_⟩
    rw [String.intercalate_append_of_ne_nil hne hmore, String.append_assoc]

theorem exists_intercalate_concat (sep last : String) (lines : List String) :
    ∃ start, String.intercalate sep (lines ++ [last]) = start ++ last := by
  by_cases hlines : lines = []
  · exact ⟨"", by simp [hlines]⟩
  · refine ⟨String.intercalate sep lines ++ sep, ?_⟩
    rw [String.intercalate_append_of_ne_nil hlines (List.cons_ne_nil _ _),
      String.intercalate_singleton]

namespace Render

variable {r : TypeRegistry} {t : TypeEntry} {lines : List String} {f : Fragment}
  {group : List TypeEntry} {p : Property}

def interfaceText (t : TypeEntry) : String := String.intercalate "\n" (interfaceLines t)

theorem solid_interfaceText (t : TypeEntry) : Solid (interfaceText t) where
  head := by
    obtain ⟨start, line, rest, hlines, c, hc, hne⟩ : ∃ start line rest,
        interfaceLines t = (start ++ line) :: rest ∧
          ∃ c, start.toList.head? = some c ∧ c ≠ '\n' := by
      unfold interfaceLines commentLines
      cases t.doc with
      | nil =>
        simp only [String.append_assoc]
        exact ⟨"export interface ", _, _, rfl, 'e', by decide, by decide⟩
      | cons d doc => exact ⟨"// ", d, _, rfl, '/', by decide, by decide⟩
    obtain ⟨chars, hchars⟩ := List.head?_eq_some_iff.1 hc
    obtain ⟨tail, htail⟩ :=
      exists_intercalate_append "\n" (List.cons_ne_nil (start ++ line) []) rest
    refine ⟨c, chars ++ (line ++ tail).toList, ?_, hne⟩
    rw [interfaceText, hlines, ← List.singleton_append, htail, String.intercalate_singleton,
      String.append_assoc, String.toList_append, hchars, List.cons_append]
  last := by
    unfold interfaceText interfaceLines
    obtain ⟨start, hstart⟩ := exists_intercalate_concat "\n" "\x7d" _
    refine ⟨start.toList, '\x7d', ?_, by decide⟩
    rw [hstart, String.toList_append]
    rfl

theorem propertyLine_mem_interfaceLines (hp : p ∈ t.properties.values)
    (hown : p.inherited = false) : propertyLine p ∈ interfaceLines t := by
  have hmem : propertyLine p ∈ (t.properties.values.filter (!·.inherited)).map propertyLine :=
    List.mem_map_of_mem (List.mem_filter.2 ⟨hp, by simp [hown]⟩)
  unfold interfaceLines
  exact List.mem_append_left _ (List.mem_append_right _ hmem)

theorem stands_typeFragment (h : typeFragment r group = .ok f) (ht : t ∈ group)
    (hk : t.kind = .interface) : StandsIn (interfaceText t) f.body := by
  obtain ⟨lines, blocks, hlines, hbody, hmem⟩ := block_of_typeFragment h ht
  rw [typeLines, hk] at hlines
  obtain rfl := Except.ok.inj hlines
  have hne : interfaceLines t ≠ [] := by simp [interfaceLines]
  obtain ⟨rest, hrest⟩ := exists_intercalate_append "\n" hne
    (if t.hasFactory then factoryLines r t else [])
  rw [hbody]
  refine StandsIn.intercalate ?_ hmem
  rw [hrest]
  exact (StandsIn.refl _).append rest

end Render

/-- The interface of a type stands in the file of the type. -/
def Draft.Writes (d : Draft) (t : TypeEntry) : Prop :=
  ∃ file text, t.file = some file ∧ d.files.assemble.get? file = some text ∧
    StandsIn (Render.interfaceText t) text

theorem Rendered.writes {cat : Catalog} {disk : Disk} {d₀ d : Draft} {t : TypeEntry} {n : String}
    (h : Rendered cat disk d₀ d) (ht : d.types.get? n = some t) (hr : t.isRendered = true)
    (hk : t.kind = .interface) : d.Writes t := by
  obtain ⟨file, hfile, -⟩ := TypeEntry.file_of_isRendered hr
  obtain ⟨group, f, hmem, hfragment, hmemf⟩ := h.fragment_of_type ht hr hfile
  obtain ⟨text, htext, hstands⟩ := FileSet.exists_text_of_fragment
    (StandsIn.assembled (Render.solid_interfaceText t)) hmemf
    (Render.stands_typeFragment hfragment hmem hk)
  exact ⟨file, text, hfile, htext, hstands⟩

end HydraClient
