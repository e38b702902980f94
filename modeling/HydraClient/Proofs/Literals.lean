import HydraClient.Json.Parser
import HydraClient.Json.Printer
import HydraClient.Proofs.Alternations
import Mathlib.Tactic.IntervalCases

/-! # Literals in alternations

Of the values that hold no others, all but strings are spelled with characters that the scanner of
alternations passes over. The literal of a string ends at its first quotation mark without a
backslash before it, so no literal begins another one; the scanner, which knows no backslash, ends
quotes elsewhere.
-/
namespace HydraClient

open TypeExpr

def Json.isAtom : Json → Bool
  | .null => true
  | .bool _ => true
  | .int _ => true
  | .float _ => true
  | .str _ => true
  | _ => false

section UnmarkedText

/-- A character that is neither blank nor seen by the scanner. -/
def isUnmarked (c : Char) : Bool := isInert c && c != '|' && !Text.isBlank c

def Unmarked (s : String) : Prop := ∀ c ∈ s.toList, isUnmarked c = true

instance (s : String) : Decidable (Unmarked s) :=
  decidable_of_iff (s.toList.all isUnmarked = true) List.all_eq_true

theorem isUnmarked_ofNat_digit {d : Nat} (h : d < 10) :
    isUnmarked (Char.ofNat (48 + d)) = true := by
  interval_cases d <;> decide

theorem digit_bounds {c : Char} (h : c.isDigit = true) : 48 ≤ c.toNat ∧ c.toNat ≤ 57 := by
  simpa [Char.isDigit, UInt32.le_iff_toNat_le] using h

theorem isUnmarked_of_isDigit {c : Char} (h : c.isDigit = true) : isUnmarked c = true := by
  obtain ⟨hlow, hhigh⟩ := digit_bounds h
  have hc : Char.ofNat (48 + (c.toNat - 48)) = c := by
    rw [Nat.add_sub_cancel' hlow, Char.ofNat_toNat]
  exact hc ▸ isUnmarked_ofNat_digit (by omega)

theorem Unmarked.append {s t : String} (hs : Unmarked s) (ht : Unmarked t) : Unmarked (s ++ t) := by
  intro c hc
  rw [String.toList_append, List.mem_append] at hc
  exact hc.elim (hs c) (ht c)

namespace Number

theorem unmarked_digitChars {ds : List Nat} (h : ∀ d ∈ ds, d < 10) : Unmarked (digitChars ds) := by
  intro c hc
  rw [digitChars, String.toList_ofList] at hc
  obtain ⟨d, hd, rfl⟩ := List.mem_map.1 hc
  exact isUnmarked_ofNat_digit (h d hd)

theorem lt_of_mem_digitsOf {n d : Nat} (h : d ∈ digitsOf n) : d < 10 := by
  obtain ⟨c, hc, rfl⟩ := List.mem_map.1 h
  obtain ⟨_, hhigh⟩ := digit_bounds (Nat.isDigit_of_mem_toDigits (by decide) (by decide) hc)
  omega

theorem lt_of_mem_nearestOn {m count d : Nat} {e point : Int} {x : Decimal}
    (h : nearestOn m e point count = some x) (hd : d ∈ x.digits) : d < 10 := by
  obtain ⟨k, -, rfl⟩ := Option.map_eq_some_iff.1 h
  have hsub := (List.dropWhile_sublist (l := (digitsOf k).reverse) (· == 0)).subset
  exact lt_of_mem_digitsOf (List.mem_reverse.1 (hsub (List.mem_reverse.1 hd)))

theorem lt_of_mem_shortest {m d : Nat} {e : Int} (hd : d ∈ (shortest m e).digits) : d < 10 := by
  unfold shortest at hd
  split at hd
  · obtain rfl := List.mem_singleton.1 hd
    decide
  · dsimp only at hd
    cases hfound : (List.range 17).findSome? fun i => nearestOn m e (pointOf m e) (i + 1) with
    | none =>
      rw [hfound] at hd
      exact lt_of_mem_digitsOf hd
    | some x =>
      rw [hfound] at hd
      obtain ⟨i, -, hi⟩ := List.exists_of_findSome?_eq_some hfound
      exact lt_of_mem_nearestOn hi hd

variable {d : Decimal}

theorem unmarked_positional (h : ∀ x ∈ d.digits, x < 10) : Unmarked (Layout.positional d) := by
  have zeros (k : Nat) : ∀ x ∈ List.replicate k 0, x < 10 := fun x hx =>
    (List.eq_of_mem_replicate hx) ▸ by decide
  unfold Layout.positional
  split
  · have hleading : Unmarked "0." := by decide
    exact (hleading.append (unmarked_digitChars (zeros _))).append (unmarked_digitChars h)
  · have hwhole : ∀ x ∈ d.digits.take d.point.toNat ++
        List.replicate (d.point.toNat - d.digits.length) 0, x < 10 := fun x hx =>
      (List.mem_append.1 hx).elim (fun hx => h x (List.mem_of_mem_take hx)) (zeros _ x)
    refine ((unmarked_digitChars hwhole).append (by decide)).append ?_
    split
    · decide
    · exact unmarked_digitChars fun x hx => h x (List.mem_of_mem_drop hx)

theorem unmarked_scientific (l : Layout) (h : ∀ x ∈ d.digits, x < 10) :
    Unmarked (l.scientific d) := by
  have hpadding (k : Nat) : Unmarked (String.ofList (List.replicate k '0')) := by
    intro c hc
    rw [String.toList_ofList] at hc
    exact List.eq_of_mem_replicate hc ▸ by decide
  have hexponent (k n : Nat) : Unmarked (padLeft '0' k (digitChars (digitsOf n))) :=
    (hpadding _).append (unmarked_digitChars fun x hx => lt_of_mem_digitsOf hx)
  unfold Layout.scientific
  refine (Unmarked.append (Unmarked.append ?mantissa (by decide)) ?sign).append (hexponent _ _)
  case mantissa =>
    split
    · decide
    · rename_i a hdigits
      exact unmarked_digitChars fun x hx => h x (hdigits ▸ hx)
    · rename_i a rest _ hdigits
      rw [hdigits] at h
      have hfirst : Unmarked (digitChars [a]) :=
        unmarked_digitChars fun x hx => h x (List.mem_singleton.1 hx ▸ List.mem_cons_self)
      exact (hfirst.append (by decide)).append
        (unmarked_digitChars fun x hx => h x (List.mem_cons_of_mem _ hx))
  case sign => split <;> decide

theorem unmarked_write {l : Layout} (hnan : Unmarked l.notANumber) (hinfinity : Unmarked l.infinity)
    (x : Binary64) : Unmarked (l.write x) := by
  have hsign (negative : Bool) : Unmarked (if negative then "-" else "") := by
    cases negative <;> decide
  cases x with
  | nan => exact hnan
  | infinite negative => exact (hsign negative).append hinfinity
  | finite negative m e =>
    refine (hsign negative).append ?_
    split
    · exact unmarked_positional fun _ => lt_of_mem_shortest
    · exact unmarked_scientific l fun _ => lt_of_mem_shortest

theorem write_ne_empty {l : Layout} (hnan : l.notANumber ≠ "") (hinfinity : l.infinity ≠ "")
    (x : Binary64) : l.write x ≠ "" := by
  cases x with
  | nan => exact hnan
  | infinite negative =>
    rw [Layout.write, Ne, String.append_eq_empty_iff]
    exact fun h => hinfinity h.2
  | finite negative m e =>
    rw [Layout.write, Ne, String.append_eq_empty_iff]
    rintro ⟨-, h⟩
    split at h
    · unfold Layout.positional at h
      split at h <;> simp [String.append_eq_empty_iff] at h
    · simp [Layout.scientific, String.append_eq_empty_iff] at h

end Number

theorem unmarked_natRepr (n : Nat) : Unmarked n.repr := by
  intro c hc
  rw [Nat.toList_repr] at hc
  exact isUnmarked_of_isDigit (Nat.isDigit_of_mem_toDigits (by decide) (by decide) hc)

theorem unmarked_intRepr (n : Int) : Unmarked n.repr ∧ n.repr ≠ "" := by
  rw [Int.repr_eq_if]
  split
  · exact ⟨unmarked_natRepr _, Nat.repr_ne_empty⟩
  · refine ⟨Unmarked.append (by decide) (unmarked_natRepr _), ?_⟩
    rw [Ne, String.append_eq_empty_iff]
    exact fun h => Nat.repr_ne_empty h.2

theorem Unmarked.balanced {s : String} (h : Unmarked s) : Balanced s.toList :=
  .of_inert fun c hc => by
    have := h c hc
    simp only [isUnmarked, Bool.and_eq_true] at this
    exact this.1.1

theorem Unmarked.unbarred {s : String} (h : Unmarked s) : Unbarred {} s.toList :=
  unbarred_of_not_mem fun hbar => absurd (h '|' hbar) (by decide)

theorem Unmarked.not_isBlank {s : String} (h : Unmarked s) {c : Char} (hc : c ∈ s.toList) :
    Text.isBlank c = false := by
  have := h c hc
  simp only [isUnmarked, Bool.and_eq_true, Bool.not_eq_true'] at this
  exact this.2

theorem Json.unmarked_compact {v : Json} (h : v.isAtom = true) (hv : ∀ s, v ≠ .str s) :
    Unmarked v.compact ∧ v.compact ≠ "" := by
  cases v with
  | null => exact ⟨by decide, by decide⟩
  | bool b => cases b <;> exact ⟨by decide, by decide⟩
  | int n => exact unmarked_intRepr n
  | float x => exact ⟨Number.unmarked_write (by decide) (by decide) x,
      Number.write_ne_empty (by decide) (by decide) x⟩
  | str s => exact absurd rfl (hv s)
  | _ => cases h

end UnmarkedText

section StringText

namespace Json

theorem toList_quote (s : String) :
    (quote s).toList = '"' :: (escapeChars s.toList ++ ['"']) := by
  rw [quote, String.toList_append, String.toList_append, String.toList_ofList]
  simp

/-- What follows the quotation mark that closes a string, if one does. The first character may
stand behind a backslash. -/
def afterString (escaped : Bool) : List Char → Option (List Char)
  | [] => none
  | c :: rest =>
    if escaped then afterString false rest
    else if c = '"' then some rest
    else afterString (c == '\\') rest

theorem afterString_of_ne {c : Char} (hquote : c ≠ '"') (hslash : c ≠ '\\') (rest : List Char) :
    afterString false (c :: rest) = afterString false rest := by
  have hescaped : (c == '\\') = false := by simpa using hslash
  rw [afterString, if_neg Bool.false_ne_true, if_neg hquote, hescaped]

theorem hexDigit_ne {n : Nat} (h : n < 16) : hexDigit n ≠ '"' ∧ hexDigit n ≠ '\\' := by
  interval_cases n <;> decide

theorem escapeChar_cases (c : Char) :
    (∃ e, escapeChar c = ['\\', e] ∧ unescape? e = some c) ∨
    (c.toNat < 0x20 ∧ escapeChar c =
      ['\\', 'u', '0', '0', hexDigit (c.toNat / 16), hexDigit (c.toNat % 16)]) ∨
    (c ≠ '"' ∧ c ≠ '\\' ∧ ¬c.toNat < 0x20 ∧ escapeChar c = [c]) := by
  generalize hc : escapeChar c = s
  unfold escapeChar at hc
  split_ifs at hc with hquote hslash _ _ _ _ _ hcontrol
  iterate 7
    · subst c
      exact .inl ⟨_, hc.symm, rfl⟩
  · exact .inr (.inl ⟨hcontrol, hc.symm⟩)
  · exact .inr (.inr ⟨hquote, hslash, hcontrol, hc.symm⟩)

theorem afterString_escapeChar (c : Char) (rest : List Char) :
    afterString false (escapeChar c ++ rest) = afterString false rest := by
  rcases escapeChar_cases c with ⟨e, hc, -⟩ | ⟨hcontrol, hc⟩ | ⟨hquote, hslash, -, hc⟩ <;> rw [hc]
  · rfl
  · obtain ⟨hhigh, hhigh'⟩ := hexDigit_ne (n := c.toNat / 16) (by omega)
    obtain ⟨hlow, hlow'⟩ := hexDigit_ne (n := c.toNat % 16) (by omega)
    exact (afterString_of_ne hhigh hhigh' _).trans (afterString_of_ne hlow hlow' rest)
  · exact afterString_of_ne hquote hslash rest

theorem afterString_escapeChars (s rest : List Char) :
    afterString false (escapeChars s ++ rest) = afterString false rest := by
  induction s with
  | nil => rfl
  | cons c more ih =>
    rw [escapeChars, List.flatMap_cons, List.append_assoc, afterString_escapeChar]
    exact ih

/-- No literal of a string begins another one. -/
theorem eq_of_quote_append {s t : String} {rest rest' : List Char}
    (h : (quote s).toList ++ rest = (quote t).toList ++ rest') : rest = rest' := by
  rw [toList_quote, toList_quote, List.cons_append, List.cons_append, List.append_assoc,
    List.append_assoc] at h
  have hread := congrArg (afterString false) (List.cons.inj h).2
  rw [afterString_escapeChars, afterString_escapeChars] at hread
  exact Option.some.inj hread

theorem compact_trimmed {v : Json} (h : v.isAtom = true) :
    Text.trim v.compact = v.compact ∧ v.compact ≠ "" := by
  by_cases hstr : ∃ s, v = .str s
  · obtain ⟨s, rfl⟩ := hstr
    change Text.trim (quote s) = quote s ∧ quote s ≠ ""
    refine ⟨?_, fun hempty => ?_⟩
    · have htrim : Text.trimWhere Text.isBlank (quote s).toList = (quote s).toList := by
        rw [toList_quote]
        refine Text.trimWhere_eq_self (fun c hc => ?_) fun c hc => ?_
        · obtain rfl : '"' = c := Option.some.inj hc
          decide
        · rw [← List.cons_append, List.getLast?_concat] at hc
          obtain rfl : '"' = c := Option.some.inj hc
          decide
      rw [Text.trim, htrim, String.ofList_toList]
    · have := congrArg String.toList hempty
      rw [toList_quote] at this
      cases this
  · obtain ⟨hunmarked, hne⟩ := unmarked_compact h fun s hs => hstr ⟨s, hs⟩
    refine ⟨?_, hne⟩
    have htrim : Text.trimWhere Text.isBlank v.compact.toList = v.compact.toList :=
      Text.trimWhere_eq_self (fun c hc => hunmarked.not_isBlank (List.mem_of_head? hc))
        fun c hc => hunmarked.not_isBlank (List.mem_of_getLast? hc)
    rw [Text.trim, htrim, String.ofList_toList]

end Json
end StringText

section Stretches

theorem exists_trimmed_end {c : Char} (hc : Text.isBlank c = false) (s : List Char) :
    ∃ init blanks, Text.trimWhere Text.isBlank (c :: s) = c :: init ∧ c :: s = c :: init ++ blanks ∧
      ∀ b ∈ blanks, Text.isBlank b = true := by
  obtain ⟨before, after, htrim, hbefore, hafter⟩ := Text.exists_trimWhere Text.isBlank (c :: s)
  obtain rfl : before = [] := by
    cases before with
    | nil => rfl
    | cons b more =>
      obtain rfl : c = b := (List.cons.inj htrim).1
      simp [hbefore c (by simp)] at hc
  rw [List.nil_append] at htrim
  cases hleft : Text.trimWhere Text.isBlank (c :: s) with
  | nil =>
    rw [hleft, List.nil_append] at htrim
    simp [hafter c (htrim ▸ List.mem_cons_self)] at hc
  | cons b init =>
    rw [hleft] at htrim
    obtain rfl : c = b := (List.cons.inj htrim).1
    exact ⟨init, after, rfl, htrim, hafter⟩

namespace Json

variable {v : Json} {first rest : List Char} {more : List (List Char)}

theorem stretch_of_compact (h : v.isAtom = true) (hrest : ∀ c, rest.head? = some c → c = '|')
    (hstretch : stretches {} (v.compact.toList ++ rest) = first :: more)
    (hfirst : Text.trimWhere Text.isBlank first ≠ [] →
      ∃ w : Json, w.isAtom = true ∧ Text.trimWhere Text.isBlank first = w.compact.toList) :
    first = v.compact.toList := by
  by_cases hstr : ∃ s, v = .str s
  · obtain ⟨s, rfl⟩ := hstr
    change stretches {} ((quote s).toList ++ rest) = first :: more at hstretch
    change first = (quote s).toList
    obtain ⟨inner, rfl⟩ : ∃ inner, first = '"' :: inner := by
      rw [toList_quote, List.cons_append] at hstretch
      obtain ⟨inner, more', hinner⟩ := exists_stretches (Nesting.step {} '"')
        (escapeChars s.toList ++ ['"'] ++ rest)
      rw [stretches_cons (by decide) hinner] at hstretch
      exact ⟨inner, (List.cons.inj hstretch).1.symm⟩
    obtain ⟨after, hafter⟩ : ∃ after, (quote s).toList ++ rest = '"' :: inner ++ after := by
      rw [← intercalate_stretches {} ((quote s).toList ++ rest), hstretch]
      cases more with
      | nil => exact ⟨[], by rw [List.intercalate_singleton, List.append_nil]⟩
      | cons second more =>
        rw [List.intercalate_cons_cons, List.append_assoc]
        exact ⟨_, rfl⟩
    obtain ⟨init, blanks, htrim, hinner, hblanks⟩ := exists_trimmed_end (c := '"') (by decide) inner
    obtain ⟨w, hw, hliteral⟩ := hfirst (htrim ▸ List.cons_ne_nil _ _)
    rw [htrim] at hliteral
    obtain ⟨t, rfl⟩ : ∃ t, w = .str t := by
      by_contra hother
      have hunmarked := (unmarked_compact hw fun t ht => hother ⟨t, ht⟩).1
      exact absurd (hunmarked '"' (hliteral ▸ List.mem_cons_self)) (by decide)
    change '"' :: init = (quote t).toList at hliteral
    have hsame : rest = blanks ++ after := by
      rw [hinner, hliteral, List.append_assoc] at hafter
      exact eq_of_quote_append hafter
    have hnone : blanks = [] := by
      cases blanks with
      | nil => rfl
      | cons b more =>
        obtain rfl := hrest b (by rw [hsame]; rfl)
        exact absurd (hblanks '|' (by simp)) (by decide)
    rw [hsame, hnone, List.nil_append] at hafter
    exact (List.append_cancel_right hafter).symm
  · have hunmarked := (unmarked_compact h fun s hs => hstr ⟨s, hs⟩).1
    cases rest with
    | nil =>
      rw [List.append_nil, stretches_of_unbarred hunmarked.unbarred] at hstretch
      exact (List.cons.inj hstretch).1.symm
    | cons c rest =>
      obtain rfl := hrest c rfl
      rw [stretches_append_bar hunmarked.balanced.closed,
        stretches_of_unbarred hunmarked.unbarred] at hstretch
      exact (List.cons.inj hstretch).1.symm

theorem cut_of_splitChars {vs : List Json} (hne : vs ≠ []) (hatoms : ∀ v ∈ vs, v.isAtom = true)
    (htokens : ∀ t ∈ splitChars (['|'].intercalate (vs.map fun v => v.compact.toList)),
      ∃ w : Json, w.isAtom = true ∧ t = w.compact.toList) :
    Cut {} (vs.map fun v => v.compact.toList) := by
  induction vs with
  | nil => exact absurd rfl hne
  | cons v rest ih =>
    have hv := hatoms v (by simp)
    -- the first stretch is the literal of the first value, whatever follows
    have hfirst (tail : List Char) (htail : ∀ c, tail.head? = some c → c = '|')
        (htext : ['|'].intercalate ((v :: rest).map fun v => v.compact.toList) =
          v.compact.toList ++ tail) :
        ∃ more, stretches {} (v.compact.toList ++ tail) = v.compact.toList :: more := by
      obtain ⟨first, more, hstretch⟩ := exists_stretches {} (v.compact.toList ++ tail)
      have heq : first = v.compact.toList := by
        refine stretch_of_compact hv htail hstretch fun hempty => htokens _ ?_
        rw [mem_splitChars, htext, hstretch]
        exact ⟨first, by simp, rfl, hempty⟩
      exact ⟨more, heq ▸ hstretch⟩
    cases rest with
    | nil =>
      obtain ⟨more, hstretch⟩ := hfirst [] nofun (by simp)
      have hcut := cut_stretches {} (v.compact.toList ++ [])
      rw [hstretch] at hcut
      exact .last (hcut.unbarred _ List.mem_cons_self)
    | cons u rest =>
      have htext : ['|'].intercalate ((v :: u :: rest).map fun v => v.compact.toList) =
          v.compact.toList ++
            '|' :: ['|'].intercalate ((u :: rest).map fun v => v.compact.toList) := by
        rw [List.map_cons, List.map_cons, List.intercalate_cons_cons, List.append_assoc]
        rfl
      obtain ⟨more, hstretch⟩ := hfirst _ (by rintro c ⟨⟩; rfl) htext
      have hcut := cut_stretches {} (v.compact.toList ++
        '|' :: ['|'].intercalate ((u :: rest).map fun v => v.compact.toList))
      rw [hstretch] at hcut
      have hjoined := intercalate_stretches {} (v.compact.toList ++
        '|' :: ['|'].intercalate ((u :: rest).map fun v => v.compact.toList))
      rw [hstretch] at hjoined
      cases hcut with
      | last _ =>
        rw [List.intercalate_singleton] at hjoined
        exact absurd hjoined (by simp)
      | more hunbarred hclosed _ =>
        refine .more hunbarred hclosed (ih (List.cons_ne_nil _ _)
          (fun w hw => hatoms w (List.mem_cons_of_mem _ hw)) fun t ht => htokens t ?_)
        rw [mem_splitChars] at ht ⊢
        obtain ⟨s, hs, htrim⟩ := ht
        refine ⟨s, ?_, htrim⟩
        rw [htext, stretches_append_bar hclosed]
        exact List.mem_append_right _ hs

theorem not_mem_escapeChars {s : List Char} (h : '"' ∉ s) : '"' ∉ escapeChars s := by
  intro hmem
  obtain ⟨c, hc, hquote⟩ := List.mem_flatMap.1 hmem
  have hne : c ≠ '"' := fun heq => h (heq ▸ hc)
  rcases escapeChar_cases c with ⟨e, hescape, he⟩ | ⟨hcontrol, hescape⟩ | ⟨-, -, -, hescape⟩ <;>
    rw [hescape] at hquote
  · obtain rfl : '"' = e := by simpa using hquote
    exact hne (Option.some.inj he).symm
  · have hhigh := (hexDigit_ne (n := c.toNat / 16) (by omega)).1
    have hlow := (hexDigit_ne (n := c.toNat % 16) (by omega)).1
    simp [Ne.symm hhigh, Ne.symm hlow] at hquote
  · exact hne (List.mem_singleton.1 hquote).symm

theorem closed_quote {s : String} (h : '"' ∉ s.toList) :
    Unbarred {} (quote s).toList ∧ Nesting.after {} (quote s).toList = {} := by
  have hinside := Nesting.after_of_not_mem (n := Nesting.step {} '"') rfl (not_mem_escapeChars h)
  rw [toList_quote]
  constructor
  · refine ⟨by decide, unbarred_append.2 ⟨?_, unbarred_of_not_mem (by decide)⟩⟩
    refine unbarred_of_below fun a ha => ?_
    rw [Nesting.after_of_not_mem rfl fun hmem => not_mem_escapeChars h (ha.subset hmem)]
    decide
  · rw [Nesting.after_cons, Nesting.after_append, hinside]
    rfl

/-- Literals without quotation marks in them are cut. -/
theorem cut_of_no_quote {vs : List Json} (hne : vs ≠ []) (hatoms : ∀ v ∈ vs, v.isAtom = true)
    (hquote : ∀ s, .str s ∈ vs → '"' ∉ s.toList) : Cut {} (vs.map fun v => v.compact.toList) := by
  refine cut_of_closed (by simpa using hne) fun t ht => ?_
  obtain ⟨v, hv, rfl⟩ := List.mem_map.1 ht
  by_cases hstr : ∃ s, v = .str s
  · obtain ⟨s, rfl⟩ := hstr
    exact closed_quote (hquote s hv)
  · have hunmarked := (unmarked_compact (hatoms v hv) fun s hs => hstr ⟨s, hs⟩).1
    exact ⟨hunmarked.unbarred, hunmarked.balanced.closed⟩

end Json
end Stretches
end HydraClient
