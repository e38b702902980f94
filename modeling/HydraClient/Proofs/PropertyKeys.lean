import HydraClient.Proofs.Literals
import HydraClient.Script

/-! # Keys of properties

A string is read back from its literal, whatever stands behind it, and the name of a property from
its key, in quotes or bare. So no two names have the same key. A name with a line feed at its end is
written bare like one without, and then the key is more than one line.
-/
namespace HydraClient

theorem dropPrefix?_eq_none {start s : List Char} (h : ¬start <+: s) :
    s.dropPrefix? start = none := by
  refine Option.eq_none_iff_forall_ne_some.2 fun rest hrest => h ?_
  obtain ⟨start', rfl, hstart⟩ := List.dropPrefix?_eq_some_iff.1 hrest
  exact ⟨rest, by rw [eq_of_beq hstart]⟩

namespace Json

variable {fuel : Nat} {acc : List Char}

theorem hexValue?_hexDigit {n : Nat} (h : n < 16) : hexValue? (hexDigit n) = some n := by
  revert n
  decide

theorem hexDigit_ne_break {n : Nat} (h : n < 16) :
    hexDigit n ≠ '\n' ∧ hexDigit n ≠ '\r' := by
  revert n
  decide

theorem readUnit_control {n : Nat} (h : n < 0x20) (rest : List Char) :
    readUnit ('0' :: '0' :: hexDigit (n / 16) :: hexDigit (n % 16) :: rest) = some (n, rest) := by
  have hzero : hexValue? '0' = some 0 := by decide
  have hvalue : ((0 * 16 + 0) * 16 + n / 16) * 16 + n % 16 = n := by omega
  simp only [readUnit, hzero, hexValue?_hexDigit (by omega : n / 16 < 16),
    hexValue?_hexDigit (by omega : n % 16 < 16), Option.bind_eq_bind, Option.bind_some,
    Option.pure_def, hvalue]

theorem readString_escapeChar (c : Char) (rest : List Char) :
    readString (fuel + 1) acc (escapeChar c ++ rest) = readString fuel (c :: acc) rest := by
  rcases escapeChar_cases c with ⟨e, hc, he⟩ | ⟨hcontrol, hc⟩ | ⟨hquote, hslash, hcontrol, hc⟩
  · have hunit : e ≠ 'u' := by
      rintro rfl
      cases he
    simp [hc, readString, he]
  · have hjoin : joinUnits c.toNat rest = .ok (c, rest) := by
      unfold joinUnits
      rw [if_neg (by simp; omega), if_neg (by simp; omega), Char.ofNat_toNat]
    simp [hc, readString, readUnit_control hcontrol, hjoin]
  · simp [hc, readString, hquote, hslash, hcontrol]

theorem readString_escapeChars (s rest : List Char) (h : s.length < fuel) :
    readString fuel acc (escapeChars s ++ '"' :: rest) =
      .ok (String.ofList (acc.reverse ++ s), rest) := by
  induction s generalizing fuel acc with
  | nil =>
    obtain ⟨fuel, rfl⟩ := Nat.exists_eq_succ_of_ne_zero (by omega : fuel ≠ 0)
    simp [escapeChars, readString]
  | cons c more ih =>
    obtain ⟨fuel, rfl⟩ := Nat.exists_eq_succ_of_ne_zero (by omega : fuel ≠ 0)
    have hmore : more.length < fuel := Nat.lt_of_succ_lt_succ h
    rw [escapeChars, List.flatMap_cons, List.append_assoc, readString_escapeChar]
    refine (ih hmore).trans ?_
    simp

theorem length_le_escapeChars (s : List Char) : s.length ≤ (escapeChars s).length := by
  induction s with
  | nil => exact Nat.zero_le _
  | cons c rest ih =>
    have hc : 1 ≤ (escapeChar c).length := by
      rcases escapeChar_cases c with ⟨e, hc, -⟩ | ⟨-, hc⟩ | ⟨-, -, -, hc⟩ <;> simp [hc]
    rw [escapeChars, List.flatMap_cons, List.length_append, List.length_cons, Nat.add_comm]
    exact Nat.add_le_add hc ih

theorem no_break_quote (s : String) {b : Char} (hb : b = '\n' ∨ b = '\r') :
    b ∉ (quote s).toList := by
  have hescaped : ∀ c, b ∉ escapeChar c := by
    intro c
    rcases escapeChar_cases c with ⟨e, hc, he⟩ | ⟨hcontrol, hc⟩ | ⟨-, -, hcontrol, hc⟩
    · have hbreak : b ≠ e := by
        rintro rfl
        rcases hb with rfl | rfl <;> cases he
      rcases hb with rfl | rfl <;> simp [hc, hbreak]
    · have hhigh := hexDigit_ne_break (by omega : c.toNat / 16 < 16)
      have hlow := hexDigit_ne_break (by omega : c.toNat % 16 < 16)
      rcases hb with rfl | rfl <;> simp [hc, hhigh.1.symm, hhigh.2.symm, hlow.1.symm,
        hlow.2.symm]
    · have hbreak : b ≠ c := by
        rintro rfl
        rcases hb with rfl | rfl <;> exact hcontrol (by decide)
      simpa [hc] using hbreak
  rw [toList_quote]
  rcases hb with rfl | rfl <;> simp [escapeChars, hescaped]

end Json

namespace Script

def endsKey (c : Char) : Bool := c == '?' || c == ':'

def readKey? : List Char → Option (String × List Char)
  | '"' :: rest => (Json.readString (rest.length + 1) [] rest).toOption
  | s =>
    let name := s.takeWhile (!endsKey ·)
    if name.head?.any isIdentifierStart then some (String.ofList name, s.dropWhile (!endsKey ·))
    else none

variable {name : String} {c : Char}

theorem of_isIdentifier (h : isIdentifier name = true) :
    ∃ c rest, name.toList = c :: rest ∧ isIdentifierStart c = true ∧
      ∀ d ∈ c :: rest, isIdentifierChar d = true ∨ d = '\n' := by
  unfold isIdentifier at h
  split at h
  · cases h
  · rename_i c rest hname
    obtain ⟨hstart, hchars⟩ := Bool.and_eq_true_iff.1 h
    refine ⟨c, rest, hname, hstart, List.forall_mem_cons.2 ⟨.inl ?_, fun d hd => ?_⟩⟩
    · rw [isIdentifierChar, hstart, Bool.true_or]
    · split at hchars
      · rename_i hlast
        obtain ⟨init, rfl⟩ := List.getLast?_eq_some_iff.1 hlast
        rw [List.dropLast_concat] at hchars
        rcases List.mem_append.1 hd with hd | hd
        · exact .inl (List.all_eq_true.1 hchars d hd)
        · exact .inr (List.mem_singleton.1 hd)
      · exact .inl (List.all_eq_true.1 hchars d hd)

theorem endsKey_of_isIdentifier (h : isIdentifier name = true) :
    ∀ d ∈ name.toList, (!endsKey d) = true := by
  obtain ⟨c, rest, hname, -, hchars⟩ := of_isIdentifier h
  intro d hd
  rcases hchars d (hname ▸ hd) with hd | rfl
  · rw [endsKey, Bool.not_eq_true', Bool.or_eq_false_iff, beq_eq_false_iff_ne, beq_eq_false_iff_ne]
    constructor <;> rintro rfl <;> exact absurd hd (by decide)
  · decide

/-- A key is read back as the name, however the name is written. -/
theorem readKey?_propertyKey (hc : endsKey c = true) (rest : List Char) :
    readKey? ((propertyKey name).toList ++ c :: rest) = some (name, c :: rest) := by
  unfold propertyKey
  split
  · rename_i hname
    have hbare := endsKey_of_isIdentifier hname
    obtain ⟨d, more, hlist, hstart, -⟩ := of_isIdentifier hname
    have hquote : d ≠ '"' := by
      rintro rfl
      exact absurd hstart (by decide)
    have htake : (name.toList ++ c :: rest).takeWhile (!endsKey ·) = name.toList := by
      rw [List.takeWhile_append_of_pos hbare, List.takeWhile_cons_of_neg (by simp [hc]),
        List.append_nil]
    have hdrop : (name.toList ++ c :: rest).dropWhile (!endsKey ·) = c :: rest := by
      rw [List.dropWhile_append_of_pos hbare, List.dropWhile_cons_of_neg (by simp [hc])]
    unfold readKey?
    split
    · rename_i heq
      rw [hlist] at heq
      exact absurd (List.cons.inj heq).1 hquote
    · have hfirst : name.toList.head?.any isIdentifierStart = true := by
        rwa [hlist, List.head?_cons, Option.any_some]
      dsimp only
      rw [htake, hdrop, if_pos hfirst, String.ofList_toList]
  · rw [Json.toList_quote, List.cons_append, List.append_assoc, readKey?,
      List.singleton_append, Json.readString_escapeChars]
    · rw [List.reverse_nil, List.nil_append, String.ofList_toList]
      rfl
    · have := Json.length_le_escapeChars name.toList
      rw [List.length_append]
      omega

theorem readKey?_eq_none (hquote : c ≠ '"') (hstart : isIdentifierStart c = false)
    (rest : List Char) : readKey? (c :: rest) = none := by
  have hfirst : ((c :: rest).takeWhile (!endsKey ·)).head?.any isIdentifierStart = false := by
    rw [List.takeWhile_cons]
    split
    · exact hstart
    · rfl
  unfold readKey?
  split
  · rename_i heq
    exact absurd (List.cons.inj heq).1 hquote
  · exact if_neg (Bool.eq_false_iff.1 hfirst)

theorem propertyKey_injective : Function.Injective propertyKey := by
  intro a b h
  have hread (name : String) :
      readKey? ((propertyKey name).toList ++ [':']) = some (name, [':']) :=
    readKey?_propertyKey (by decide) []
  have hsame := hread a
  rw [h, hread b] at hsame
  exact (Prod.mk.inj (Option.some.inj hsame)).1.symm

/-- A name that stands bare together with the line feed that it ends in. -/
def EndsLine (name : String) : Prop := isIdentifier name = true ∧ '\n' ∈ name.toList

instance (name : String) : Decidable (EndsLine name) := inferInstanceAs (Decidable (_ ∧ _))

theorem break_mem_propertyKey_iff : '\n' ∈ (propertyKey name).toList ↔ EndsLine name := by
  unfold propertyKey
  split
  · rename_i hname
    exact (and_iff_right hname).symm
  · rename_i hname
    exact iff_of_false (Json.no_break_quote name (.inl rfl)) fun h => hname h.1

end Script
end HydraClient
