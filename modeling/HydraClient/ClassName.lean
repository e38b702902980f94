/-! # Qualified class names

Class names are segments joined by backslashes. A leading backslash only marks a name as absolute,
so names are compared without it.
-/
namespace HydraClient.ClassName

def relative (name : String) : String := String.ofList (name.toList.dropWhile (· == '\\'))

def pieces (name : String) : List String := (name.toList.splitOn '\\').map String.ofList

/-- The last segment, which is empty after a trailing backslash. -/
def base (name : String) : String := (pieces name).getLast?.getD ""

def segments (name : String) : List String := (pieces name).filter (· != "")

private theorem splitOn_append_last {x : Char} {s : List Char} (hs : x ∉ s) (a : List Char) :
    ∃ init last, (a ++ s).splitOn x = init ++ [last] ∧ s <:+ last := by
  induction a with
  | nil =>
    refine ⟨[], s, ?_, List.suffix_refl s⟩
    rw [List.nil_append, List.splitOn_eq_splitOnP, List.splitOnP_eq_singleton, List.nil_append]
    intro c hc
    have : c ≠ x := fun e => hs (e ▸ hc)
    simpa using this
  | cons c t ih =>
    obtain ⟨init, last, h, hlast⟩ := ih
    rw [List.cons_append, List.splitOn_cons_eq_if_modifyHead, h]
    split
    · exact ⟨[] :: init, last, rfl, hlast⟩
    · cases init with
      | nil => exact ⟨[], c :: last, rfl, hlast.trans (List.suffix_cons c last)⟩
      | cons first rest => exact ⟨(c :: first) :: rest, last, rfl, hlast⟩

theorem segments_append {s : String} (hs : '\\' ∉ s.toList) (hne : s ≠ "") (name : String) :
    ∃ init last, segments (name ++ s) = init ++ [last] ∧ s.toList <:+ last.toList := by
  obtain ⟨init, last, h, hlast⟩ := splitOn_append_last hs name.toList
  have hlast' : String.ofList last ≠ "" := fun e => by
    have : last = [] := by simpa using congrArg String.toList e
    rw [this, List.suffix_nil] at hlast
    exact hne (by simpa using congrArg String.ofList hlast)
  refine ⟨(init.map String.ofList).filter (· != ""), String.ofList last, ?_, by simpa using hlast⟩
  simp [segments, pieces, String.toList_append, h, hlast']

end HydraClient.ClassName
