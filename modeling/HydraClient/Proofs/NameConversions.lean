import HydraClient.Proofs.NameLetters
import Mathlib.Data.List.TakeWhile

/-! # Words and snake case of names

Wherever a letter or digit stands, one of the forms of a word begins there, so cutting a name into
words leaves out nothing but gaps. A snake-case name has small letters, digits and single
underscores between them, and the names that look so are those that snake case leaves alone. The
words joined and the snake-case name without its underscores are therefore the same text.
-/
namespace HydraClient.Text

/-- The forms of a word. A single capital is a capitalised word with nothing behind the capital. -/
inductive WordForm : List Char → Prop
  | small {w : List Char} (hne : w ≠ []) (h : ∀ c ∈ w, c.isLower = true) : WordForm w
  | capitalised {c : Char} {w : List Char} (hc : c.isUpper = true)
      (h : ∀ d ∈ w, d.isLower = true) : WordForm (c :: w)
  | capitals {w : List Char} (hne : w ≠ []) (h : ∀ c ∈ w, c.isUpper = true) : WordForm w
  | digits {w : List Char} (hne : w ≠ []) (h : ∀ c ∈ w, c.isDigit = true) : WordForm w

/-- A text cut into words. What is passed over between them is neither letter nor digit. -/
inductive WordCut : List Char → List (List Char) → Prop
  | nil : WordCut [] []
  | gap {c : Char} {s : List Char} {ws : List (List Char)} : ¬isNameChar c = true →
      WordCut s ws → WordCut (c :: s) ws
  | word {w s : List Char} {ws : List (List Char)} : WordForm w →
      WordCut s ws → WordCut (w ++ s) (w :: ws)

def isSnakeChar (c : Char) : Bool := c.isLower || c.isDigit || c == '_'

structure IsSnakeName (s : List Char) : Prop where
  chars : ∀ c ∈ s, isSnakeChar c = true
  first : s.head? ≠ some '_'
  last : s.getLast? ≠ some '_'
  single : ¬['_', '_'] <:+: s

variable {s w : List Char} {ws : List (List Char)} {c : Char} {name : String} {n fuel : Nat}
  {run gap : Bool} {p : Char → Bool}

theorem isNameChar_iff :
    isNameChar c = true ↔ c.isUpper = true ∨ c.isLower = true ∨ c.isDigit = true := by
  have hclasses : isNameChar c = (c.isUpper || c.isLower || c.isDigit) := rfl
  rw [hclasses, Bool.or_eq_true, Bool.or_eq_true, or_assoc]

theorem WordForm.ne_nil (h : WordForm w) : w ≠ [] := by
  cases h with
  | small hne | capitals hne | digits hne => exact hne
  | capitalised => nofun

theorem WordForm.isNameChar_of_mem (h : WordForm w) (hc : c ∈ w) : isNameChar c = true := by
  refine isNameChar_iff.2 ?_
  cases h with
  | small _ h => exact .inr (.inl (h c hc))
  | capitals _ h => exact .inl (h c hc)
  | digits _ h => exact .inr (.inr (h c hc))
  | capitalised hd h =>
    rcases List.mem_cons.1 hc with rfl | hc
    · exact .inl hd
    · exact .inr (.inl (h c hc))

theorem take_length_takeWhile : s.take (s.takeWhile p).length = s.takeWhile p :=
  (List.prefix_iff_eq_take.1 (List.takeWhile_prefix p)).symm

theorem capitalsTaken_le : capitalsTaken n s ≤ n := by
  fun_induction capitalsTaken n s with
  | case1 => exact Nat.le_refl 0
  | case2 n s _ => exact Nat.le_refl (n + 1)
  | case3 n s _ ih => exact Nat.le_succ_of_le ih

theorem isUpper_of_mem_take
    (h : c ∈ s.take (capitalsTaken (s.takeWhile Char.isUpper).length s)) : c.isUpper = true := by
  have htaken : s.take (capitalsTaken (s.takeWhile Char.isUpper).length s) <+:
      s.take (s.takeWhile Char.isUpper).length := List.take_prefix_take_left capitalsTaken_le
  rw [take_length_takeWhile] at htaken
  exact List.mem_takeWhile_imp (htaken.subset h)

theorem wordLength_spec (s : List Char) :
    (wordLength s = 0 ∧ ∀ c, s.head? = some c → ¬isNameChar c = true) ∨
      WordForm (s.take (wordLength s)) := by
  fun_cases wordLength s with
  | case1 => exact .inl ⟨rfl, nofun⟩
  | case2 c rest hc =>
    rw [take_length_takeWhile]
    exact .inr (.small (by simp [hc]) fun d => List.mem_takeWhile_imp)
  | case3 c rest _ hc tail _ =>
    rw [List.take_succ_cons, take_length_takeWhile]
    exact .inr (.capitalised hc fun d => List.mem_takeWhile_imp)
  | case4 c rest _ hc tail _ n hn =>
    -- no end of the run will do, so its first capital stands alone
    dsimp only
    rw [if_pos hn]
    exact .inr (.capitalised hc nofun)
  | case5 c rest _ hc tail _ n hn =>
    dsimp only
    rw [if_neg hn]
    refine .inr (.capitals ?_ fun d => isUpper_of_mem_take)
    rw [ne_eq, List.take_eq_nil_iff, not_or]
    exact ⟨hn, nofun⟩
  | case6 c rest _ _ hc =>
    rw [take_length_takeWhile]
    exact .inr (.digits (by simp [hc]) fun d => List.mem_takeWhile_imp)
  | case7 c rest hlower hupper hdigit =>
    refine .inl ⟨rfl, fun d hd => ?_⟩
    obtain rfl := Option.some.inj hd
    rw [isNameChar_iff]
    rintro (h | h | h)
    · exact hupper h
    · exact hlower h
    · exact hdigit h

theorem wordCut_wordsOf (h : s.length ≤ fuel) : WordCut s (wordsOf fuel s) := by
  fun_induction wordsOf fuel s with
  | case1 s =>
    rw [List.length_eq_zero_iff.1 (Nat.le_zero.1 h)]
    exact .nil
  | case2 => exact .nil
  | case3 fuel c rest hlength ih =>
    rcases wordLength_spec (c :: rest) with ⟨-, hgap⟩ | hword
    · exact .gap (hgap c rfl) (ih (Nat.le_of_succ_le_succ h))
    · rw [hlength] at hword
      exact absurd rfl hword.ne_nil
  | case4 fuel c rest hlength ih =>
    have hword := (wordLength_spec (c :: rest)).resolve_left fun hgap => hlength hgap.1
    have hrest : ((c :: rest).drop (wordLength (c :: rest))).length ≤ fuel := by
      have hpos : 0 < wordLength (c :: rest) := Nat.pos_of_ne_zero hlength
      rw [List.length_drop]
      omega
    have hcut := WordCut.word hword (ih hrest)
    rwa [List.take_append_drop] at hcut

theorem WordCut.flatten (h : WordCut s ws) : ws.flatten = letters s := by
  induction h with
  | nil => rfl
  | gap hc _ ih => rw [ih, letters_cons_of_not hc]
  | @word w s _ hw _ ih =>
    have hletters : letters w = w := List.filter_eq_self.2 fun c => hw.isNameChar_of_mem
    rw [List.flatten_cons, ih, letters_append, hletters]

theorem toList_join_words (name : String) :
    (String.join (words name)).toList = (letters name.toList).map Char.toLower := by
  have hcut : WordCut name.toList (wordsOf name.toList.length name.toList) :=
    wordCut_wordsOf (Nat.le_refl _)
  rw [← hcut.flatten, String.toList_join, words, List.flatMap_map, List.map_flatten]
  simp only [String.toList_ofList]
  rfl

theorem head?_squeeze_gap : (squeeze true s).head? ≠ some '_' := by
  induction s with
  | nil => nofun
  | cons c rest ih =>
    rw [squeeze]
    split
    · rename_i hc
      intro h
      obtain rfl := Option.some.inj h
      exact absurd hc (by decide)
    · exact ih

theorem single_squeeze : ¬['_', '_'] <:+: squeeze gap s := by
  fun_induction squeeze gap s with
  | case1 => decide
  | case2 gap c rest hc ih =>
    rw [List.infix_cons_iff, List.cons_prefix_cons]
    rintro (⟨rfl, -⟩ | h)
    · exact absurd hc (by decide)
    · exact ih h
  | case3 c rest hc ih => exact ih
  | case4 gap c rest hc _ ih =>
    -- the gap goes on behind its underscore, so no other follows at once
    rw [List.infix_cons_iff, List.cons_prefix_cons]
    rintro (⟨-, more, hmore⟩ | h)
    · rw [List.singleton_append] at hmore
      exact head?_squeeze_gap (hmore ▸ List.head?_cons)
    · exact ih h

theorem single_snakeChars : ¬['_', '_'] <:+: snakeChars s := fun h =>
  single_squeeze (h.trans (isInfix_snakeChars s))

theorem isSnakeChar_toLower (h : isNameChar c = true) : isSnakeChar c.toLower = true :=
  of_isNameChar (P := fun c => isSnakeChar c.toLower) h (by decide +kernel)

theorem toLower_ne_underscore (h : isNameChar c = true) : c.toLower ≠ '_' :=
  bne_iff_ne.1 (of_isNameChar (P := fun c => c.toLower != '_') h (by decide +kernel))

theorem eq_underscore_of_toLower (hc : c ∈ snakeChars s) (h : c.toLower = '_') : c = '_' :=
  (mem_snakeChars hc).resolve_left fun hname => toLower_ne_underscore hname h

theorem map_toLower_of_underscores {t : List Char} (ht : t <:+: snakeChars s)
    (h : ∀ c ∈ t, c.toLower = '_') : t.map Char.toLower = t := by
  calc t.map Char.toLower = t.map id := by
        refine List.map_congr_left fun c hc => ?_
        rw [eq_underscore_of_toLower (ht.subset hc) (h c hc)]
        rfl
    _ = t := List.map_id t

theorem isSnakeName_snakeCase (name : String) : IsSnakeName (snakeCase name).toList := by
  rw [toList_snakeCase]
  constructor
  case chars =>
    intro d hd
    obtain ⟨c, hc, rfl⟩ := List.mem_map.1 hd
    rcases mem_snakeChars hc with hc | rfl
    · exact isSnakeChar_toLower hc
    · rfl
  case first =>
    rw [List.head?_map, ne_eq, Option.map_eq_some_iff]
    rintro ⟨c, hc, hlower⟩
    exact toLower_ne_underscore (isNameChar_of_head?_snakeChars hc) hlower
  case last =>
    rw [List.getLast?_map, ne_eq, Option.map_eq_some_iff]
    rintro ⟨c, hc, hlower⟩
    obtain rfl := eq_underscore_of_toLower (List.mem_of_getLast? hc) hlower
    cases not_of_getLast?_trimWhere hc
  case single =>
    rw [List.infix_map_iff]
    rintro ⟨t, ht, hlower⟩
    have hunderscores : ∀ c ∈ t, c.toLower = '_' := by
      intro c hc
      have hmem := List.mem_map_of_mem (f := Char.toLower) hc
      rw [← hlower] at hmem
      simpa using hmem
    rw [map_toLower_of_underscores ht hunderscores] at hlower
    exact single_snakeChars (hlower ▸ ht)

theorem filter_snakeCase (name : String) : (snakeCase name).toList.filter (· != '_') =
    (letters name.toList).map Char.toLower := by
  rw [toList_snakeCase, ← letters_snakeChars, letters, List.filter_map]
  refine congrArg _ (List.filter_congr fun c hc => ?_)
  rcases mem_snakeChars hc with hc | rfl
  · rw [hc]
    exact bne_iff_ne.2 (toLower_ne_underscore hc)
  · decide

theorem isNameChar_or_of_isSnakeChar (h : isSnakeChar c = true) :
    isNameChar c = true ∨ c = '_' := by
  rw [isSnakeChar, Bool.or_eq_true, Bool.or_eq_true, beq_iff_eq] at h
  rcases h with (h | h) | h
  · exact .inl (isNameChar_iff.2 (.inr (.inl h)))
  · exact .inl (isNameChar_iff.2 (.inr (.inr h)))
  · exact .inr h

theorem of_isSnakeChar {P : Char → Bool} (h : isSnakeChar c = true)
    (hall : ∀ n < 128, isSnakeChar (Char.ofNat n) = true → P (Char.ofNat n) = true) :
    P c = true := by
  refine of_ascii h ?_ hall
  rcases isNameChar_or_of_isSnakeChar h with hname | rfl
  · exact toNat_of_isAlphanum hname
  · decide

theorem isUpper_of_isSnakeChar (h : isSnakeChar c = true) : c.isUpper = false := by
  have hnot := of_isSnakeChar (P := fun c => !c.isUpper) h (by decide +kernel)
  simpa using hnot

theorem toLower_of_isSnakeChar (h : isSnakeChar c = true) : c.toLower = c :=
  eq_of_beq (of_isSnakeChar (P := fun c => c.toLower == c) h (by decide +kernel))

theorem partCapitals_eq_self (h : ∀ c ∈ s, c.isUpper = false) : partCapitals run s = s := by
  fun_induction partCapitals run s with
  | case1 run a b rest hab ih =>
    rw [h a List.mem_cons_self, Bool.and_false, Bool.false_and] at hab
    cases hab
  | case2 run a b rest hab ih => rw [ih fun c hc => h c (List.mem_cons_of_mem a hc)]
  | case3 run s _ => rfl

theorem partHumps_eq_self (h : ∀ c ∈ s, c.isUpper = false) : partHumps s = s := by
  fun_induction partHumps s with
  | case1 a b rest hab ih =>
    rw [h b (List.mem_cons_of_mem a List.mem_cons_self), Bool.and_false] at hab
    cases hab
  | case2 a b rest hab ih => rw [ih fun c hc => h c (List.mem_cons_of_mem a hc)]
  | case3 s _ => rfl

theorem squeeze_eq_self (hchars : ∀ c ∈ s, isNameChar c = true ∨ c = '_')
    (hgap : gap = true → s.head? ≠ some '_') (hsingle : ¬['_', '_'] <:+: s) :
    squeeze gap s = s := by
  fun_induction squeeze gap s with
  | case1 => rfl
  | case2 gap c rest hc ih =>
    rw [ih (fun d hd => hchars d (List.mem_cons_of_mem c hd)) (absurd · Bool.false_ne_true)
      fun h => hsingle (List.infix_cons h)]
  | case3 c rest hc ih =>
    obtain rfl := (hchars c List.mem_cons_self).resolve_left hc
    exact absurd rfl (hgap rfl)
  | case4 gap c rest hc _ ih =>
    obtain rfl := (hchars c List.mem_cons_self).resolve_left hc
    rw [ih (fun d hd => hchars d (List.mem_cons_of_mem '_' hd)) ?_
      fun h => hsingle (List.infix_cons h)]
    intro _ hhead
    obtain ⟨more, rfl⟩ := List.head?_eq_some_iff.1 hhead
    exact hsingle ⟨[], more, rfl⟩

theorem IsSnakeName.trimWhere_eq_self (h : IsSnakeName s) : trimWhere (· == '_') s = s :=
  Text.trimWhere_eq_self (fun _ hc => beq_eq_false_iff_ne.2 fun heq => h.first (heq ▸ hc))
    fun _ hc => beq_eq_false_iff_ne.2 fun heq => h.last (heq ▸ hc)

theorem IsSnakeName.snakeChars_eq_self (h : IsSnakeName s) : snakeChars s = s := by
  have hupper : ∀ c ∈ s, c.isUpper = false := fun c hc =>
    isUpper_of_isSnakeChar (h.chars c hc)
  have hchars : ∀ c ∈ s, isNameChar c = true ∨ c = '_' := fun c hc =>
    isNameChar_or_of_isSnakeChar (h.chars c hc)
  rw [snakeChars, partCapitals_eq_self hupper, partHumps_eq_self hupper,
    squeeze_eq_self hchars (absurd · Bool.false_ne_true) h.single, h.trimWhere_eq_self]

/-- The snake-case names are the names that snake case does not change. -/
theorem snakeCase_eq_self_iff : snakeCase name = name ↔ IsSnakeName name.toList := by
  constructor
  · intro h
    exact h ▸ isSnakeName_snakeCase name
  · intro h
    rw [← String.toList_inj, toList_snakeCase, h.snakeChars_eq_self]
    calc name.toList.map Char.toLower = name.toList.map id :=
          List.map_congr_left fun c hc => toLower_of_isSnakeChar (h.chars c hc)
      _ = name.toList := List.map_id _

/-- The words of a name joined, and its snake case without the underscores, are its letters and
digits in small letters. No underscore of the snake case stands at an end or next to another, and
making snake case of it again changes nothing. -/
theorem conversions_keep_letters (name : String) :
    (String.join (words name)).toList = (letters name.toList).map Char.toLower ∧
    (snakeCase name).toList.filter (· != '_') = (letters name.toList).map Char.toLower ∧
    IsSnakeName (snakeCase name).toList ∧
    snakeCase (snakeCase name) = snakeCase name :=
  ⟨toList_join_words name, filter_snakeCase name, isSnakeName_snakeCase name,
    snakeCase_eq_self_iff.2 (isSnakeName_snakeCase name)⟩

/-- The two conversions do not part a name at the same places. -/
example : words "HTTPServer2XX" = ["http", "server", "2", "xx"] ∧
    snakeCase "HTTPServer2XX" = "http_server2_xx" := by decide +kernel

end HydraClient.Text
