/-! # White space

Two classes are in use: the one that trimming and blank-line tests see, and the narrower one that
may surround a number written as text. They differ in the four information separators.
-/
namespace HydraClient.Text

/-- The White_Space property of Unicode. -/
def isWhiteSpace (c : Char) : Bool :=
  let n := c.toNat
  (9 ≤ n && n ≤ 13) || n == 0x20 || n == 0x85 || n == 0xA0 || n == 0x1680 ||
    (0x2000 ≤ n && n ≤ 0x200A) || n == 0x2028 || n == 0x2029 || n == 0x202F || n == 0x205F ||
    n == 0x3000

/-- White space together with the information separators. -/
def isBlank (c : Char) : Bool :=
  isWhiteSpace c || (0x1C ≤ c.toNat && c.toNat ≤ 0x1F)

def trimWhere (p : Char → Bool) (s : List Char) : List Char :=
  ((s.dropWhile p).reverse.dropWhile p).reverse

def trim (s : String) : String :=
  String.ofList (trimWhere isBlank s.toList)

def trimLines (s : String) : String :=
  String.ofList (trimWhere (· == '\n') s.toList)

def trimEnd (c : Char) (s : String) : String :=
  String.ofList ((s.toList.reverse.dropWhile (· == c)).reverse)

section Trimming

variable {p : Char → Bool} {s : List Char}

theorem exists_trimWhere (p : Char → Bool) (s : List Char) :
    ∃ before after, s = before ++ trimWhere p s ++ after ∧ (∀ c ∈ before, p c = true) ∧
      ∀ c ∈ after, p c = true := by
  refine ⟨s.takeWhile p, ((s.dropWhile p).reverse.takeWhile p).reverse, ?_, ?_, ?_⟩
  · rw [trimWhere, List.append_assoc, ← List.reverse_append, List.takeWhile_append_dropWhile,
      List.reverse_reverse, List.takeWhile_append_dropWhile]
  · exact List.all_eq_true.1 List.all_takeWhile
  · intro c hc
    exact List.all_eq_true.1 List.all_takeWhile c (List.mem_reverse.1 hc)

private theorem not_of_head?_dropWhile {c : Char} (h : (s.dropWhile p).head? = some c) :
    p c = false := by
  have := List.head?_dropWhile_not p s
  rwa [h] at this

theorem not_of_getLast?_trimWhere {c : Char} (h : (trimWhere p s).getLast? = some c) :
    p c = false := by
  rw [trimWhere, List.getLast?_reverse] at h
  exact not_of_head?_dropWhile h

theorem not_of_head?_trimWhere {c : Char} (h : (trimWhere p s).head? = some c) :
    p c = false := by
  have hprefix : trimWhere p s <+: s.dropWhile p := by
    rw [← List.reverse_suffix, trimWhere, List.reverse_reverse]
    exact List.dropWhile_suffix p
  obtain ⟨more, hmore⟩ := hprefix
  apply not_of_head?_dropWhile (s := s)
  rw [← hmore, List.head?_append, h, Option.some_or]

private theorem dropWhile_eq_self (h : ∀ c, s.head? = some c → p c = false) :
    s.dropWhile p = s := by
  cases s with
  | nil => rfl
  | cons c rest => exact List.dropWhile_cons_of_neg (by simp [h c rfl])

theorem trimWhere_eq_self (hfirst : ∀ c, s.head? = some c → p c = false)
    (hlast : ∀ c, s.getLast? = some c → p c = false) : trimWhere p s = s := by
  have hreverse : s.reverse.dropWhile p = s.reverse :=
    dropWhile_eq_self fun c hc => hlast c (List.head?_reverse ▸ hc)
  rw [trimWhere, dropWhile_eq_self hfirst, hreverse, List.reverse_reverse]

@[simp] theorem trimWhere_trimWhere : trimWhere p (trimWhere p s) = trimWhere p s :=
  trimWhere_eq_self (fun _ => not_of_head?_trimWhere) fun _ => not_of_getLast?_trimWhere

end Trimming

end HydraClient.Text
