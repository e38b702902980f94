import HydraClient.Text.Blank
import HydraClient.Text.Words

/-! # Letters and digits of names

A snake-case name is put together from the letters and digits of a text. What parts them are single
underscores, none of which stands at an end, so a text without letters and digits has the empty
name.
-/
namespace HydraClient.Text

variable {s : List Char} {c : Char} {run gap : Bool}

def letters (s : List Char) : List Char := s.filter isNameChar

def Lettered (s : String) : Prop := letters s.toList ≠ []

instance (s : String) : Decidable (Lettered s) := inferInstanceAs (Decidable (_ ≠ _))

@[simp] theorem letters_nil : letters [] = [] := rfl

@[simp] theorem letters_underscore : letters ('_' :: s) = letters s := rfl

theorem letters_append (s t : List Char) : letters (s ++ t) = letters s ++ letters t :=
  List.filter_append ..

theorem letters_cons_congr {t : List Char} (c : Char) (h : letters s = letters t) :
    letters (c :: s) = letters (c :: t) := by
  rw [← List.singleton_append, letters_append, h, ← letters_append, List.singleton_append]

theorem letters_cons_of_not (h : ¬isNameChar c = true) : letters (c :: s) = letters s :=
  List.filter_cons_of_neg h

theorem letters_of_underscores (h : ∀ c ∈ s, (c == '_') = true) : letters s = [] := by
  refine List.filter_eq_nil_iff.2 fun c hc => ?_
  obtain rfl := eq_of_beq (h c hc)
  decide

theorem toNat_of_isAlphanum (h : c.isAlphanum = true) : c.toNat < 128 := by
  have hranges : ((c.val ≥ 'A'.val ∧ c.val ≤ 'Z'.val : Bool) ||
      (c.val ≥ 'a'.val && c.val ≤ 'z'.val) || (c.val ≥ '0'.val && c.val ≤ '9'.val)) = true := h
  simp only [Bool.or_eq_true, Bool.and_eq_true, decide_eq_true_eq, ge_iff_le,
    UInt32.le_iff_toNat_le] at hranges
  have hval : c.toNat = c.val.toNat := rfl
  have hupper : 'Z'.val.toNat = 90 := rfl
  have hlower : 'z'.val.toNat = 122 := rfl
  have hdigit : '9'.val.toNat = 57 := rfl
  omega

theorem of_ascii {Q P : Char → Bool} (h : Q c = true) (hascii : c.toNat < 128)
    (hall : ∀ n < 128, Q (Char.ofNat n) = true → P (Char.ofNat n) = true) : P c = true := by
  have hc := hall c.toNat hascii
  rw [Char.ofNat_toNat] at hc
  exact hc h

theorem of_isNameChar {P : Char → Bool} (h : isNameChar c = true)
    (hall : ∀ n < 128, isNameChar (Char.ofNat n) = true → P (Char.ofNat n) = true) :
    P c = true :=
  of_ascii h (toNat_of_isAlphanum h) hall

theorem letters_partCapitals : letters (partCapitals run s) = letters s := by
  fun_induction partCapitals run s with
  | case1 run a b rest _ ih => exact letters_cons_congr a (letters_cons_congr b ih)
  | case2 run a b rest _ ih => exact letters_cons_congr a ih
  | case3 run s _ => rfl

theorem letters_partHumps : letters (partHumps s) = letters s := by
  fun_induction partHumps s with
  | case1 a b rest _ ih => exact letters_cons_congr a (letters_cons_congr b ih)
  | case2 a b rest _ ih => exact letters_cons_congr a ih
  | case3 s _ => rfl

theorem letters_squeeze : letters (squeeze gap s) = letters s := by
  fun_induction squeeze gap s with
  | case1 => rfl
  | case2 gap c rest hc ih => exact letters_cons_congr c ih
  | case3 c rest hc ih => rw [ih, letters_cons_of_not hc]
  | case4 gap c rest hc _ ih => rw [letters_underscore, ih, letters_cons_of_not hc]

theorem mem_squeeze (h : c ∈ squeeze gap s) : isNameChar c = true ∨ c = '_' := by
  fun_induction squeeze gap s with
  | case1 => cases h
  | case2 gap d rest hd ih =>
    rcases List.mem_cons.1 h with rfl | h
    · exact .inl hd
    · exact ih h
  | case3 d rest hd ih => exact ih h
  | case4 gap d rest hd _ ih =>
    rcases List.mem_cons.1 h with rfl | h
    · exact .inr rfl
    · exact ih h

/-- A snake-case name whose letters have kept their case. -/
def snakeChars (s : List Char) : List Char :=
  trimWhere (· == '_') (squeeze false (partHumps (partCapitals false s)))

theorem toList_snakeCase (name : String) :
    (snakeCase name).toList = (snakeChars name.toList).map Char.toLower :=
  String.toList_ofList

theorem letters_snakeChars (s : List Char) : letters (snakeChars s) = letters s := by
  obtain ⟨before, after, hs, hbefore, hafter⟩ := exists_trimWhere (· == '_')
    (squeeze false (partHumps (partCapitals false s)))
  have hletters := congrArg letters hs
  rw [letters_squeeze, letters_partHumps, letters_partCapitals, letters_append, letters_append,
    letters_of_underscores hbefore, letters_of_underscores hafter, List.nil_append,
    List.append_nil] at hletters
  exact hletters.symm

theorem isInfix_snakeChars (s : List Char) :
    snakeChars s <:+: squeeze false (partHumps (partCapitals false s)) := by
  obtain ⟨before, after, hs, -, -⟩ := exists_trimWhere (· == '_')
    (squeeze false (partHumps (partCapitals false s)))
  exact ⟨before, after, hs.symm⟩

theorem mem_snakeChars (h : c ∈ snakeChars s) : isNameChar c = true ∨ c = '_' :=
  mem_squeeze ((isInfix_snakeChars s).subset h)

theorem isNameChar_of_head?_snakeChars (h : (snakeChars s).head? = some c) :
    isNameChar c = true := by
  refine (mem_snakeChars (List.mem_of_head? h)).resolve_right ?_
  rintro rfl
  cases not_of_head?_trimWhere h

theorem snakeChars_eq_nil_iff : snakeChars s = [] ↔ letters s = [] := by
  constructor
  · intro h
    rw [← letters_snakeChars, h, letters_nil]
  · intro h
    rw [← letters_snakeChars, letters, List.filter_eq_nil_iff] at h
    cases hsnake : snakeChars s with
    | nil => rfl
    | cons c rest =>
      have hfirst : (snakeChars s).head? = some c := by rw [hsnake, List.head?_cons]
      exact absurd (isNameChar_of_head?_snakeChars hfirst) (h c (List.mem_of_head? hfirst))

end HydraClient.Text
