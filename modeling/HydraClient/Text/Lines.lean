/-! # Lines of text

Lines end at line feeds. Text read from a file has its carriage returns, alone or before a line
feed, turned into line feeds.
-/
namespace HydraClient.Text

def lines (s : String) : List String := (s.toList.splitOn '\n').map String.ofList

def joinLines (ls : List String) : String := String.intercalate "\n" ls

/-- The number of lines; a last one without a line feed counts too. -/
def countLines (s : String) : Nat :=
  let cs := s.toList
  cs.count '\n' + (if cs.isEmpty || cs.getLast? = some '\n' then 0 else 1)

def unifyBreaks : List Char → List Char
  | '\r' :: '\n' :: rest => '\n' :: unifyBreaks rest
  | '\r' :: rest => '\n' :: unifyBreaks rest
  | c :: rest => c :: unifyBreaks rest
  | [] => []

theorem unifyBreaks_of_no_return {s : List Char} (h : '\r' ∉ s) : unifyBreaks s = s := by
  induction s with
  | nil => rfl
  | cons c t ih =>
    simp only [List.mem_cons, not_or] at h
    have hc : c ≠ '\r' := fun e => h.1 e.symm
    rw [unifyBreaks, ih h.2]
    · rintro _ rfl _; exact hc rfl
    · rintro rfl; exact hc rfl

def replaceAll (old new : List Char) (s : List Char) : List Char :=
  if old.isEmpty then s else go s.length s
where
  go : Nat → List Char → List Char
    | 0, s => s
    | _ + 1, [] => []
    | n + 1, c :: rest =>
      if old.isPrefixOf (c :: rest) then new ++ go n ((c :: rest).drop old.length)
      else c :: go n rest

end HydraClient.Text
