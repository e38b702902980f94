import HydraClient.Proofs.Alternations
import Mathlib.Data.List.TakeWhile

/-! # Alternations put together again

Every text, whether its brackets and quotes are closed or not, consists of its tokens, of blanks
around them and of pieces with nothing but blanks, and any two of these pieces are parted by a bar
at the top. After each token but perhaps the last the scanner is back at the top, so the tokens are
found again once bars join them.
-/
namespace HydraClient.TypeExpr

open Nesting

structure Trimmed (t : List Char) : Prop where
  nonempty : t ≠ []
  first : ∀ c, t.head? = some c → Text.isBlank c = false
  last : ∀ c, t.getLast? = some c → Text.isBlank c = false

def Blank (s : List Char) : Prop := ∀ c ∈ s, Text.isBlank c = true

/-- Pieces that are tokens with blanks around them, in order, or nothing but blanks. -/
inductive Padded : List (List Char) → List (List Char) → Prop where
  | nil : Padded [] []
  | blank {piece : List Char} {ts pieces : List (List Char)} : Blank piece → Padded ts pieces →
      Padded ts (piece :: pieces)
  | token {before t after : List Char} {ts pieces : List (List Char)} : Blank before → Trimmed t →
      Blank after → Padded ts pieces → Padded (t :: ts) ((before ++ t ++ after) :: pieces)

/-- A text that is cut at its top-level bars into pieces around tokens. -/
def Spreads (ts : List (List Char)) (s : List Char) : Prop :=
  ∃ pieces, s = ['|'].intercalate pieces ∧ Cut {} pieces ∧ Padded ts pieces

variable {s t before after : List Char} {ts pieces : List (List Char)} {n : Nesting}

section Blanks

theorem trimWhere_of_blank (h : Blank s) : Text.trimWhere Text.isBlank s = [] := by
  have hnone : s.dropWhile Text.isBlank = [] := List.dropWhile_eq_nil_iff.2 h
  rw [Text.trimWhere, hnone]
  rfl

theorem trimWhere_around_token (hbefore : Blank before) (ht : Trimmed t) (hafter : Blank after) :
    Text.trimWhere Text.isBlank (before ++ t ++ after) = t := by
  obtain ⟨c, rest, rfl⟩ := List.exists_cons_of_ne_nil ht.nonempty
  have hc := ht.first c rfl
  have hfirst : (before ++ c :: rest ++ after).dropWhile Text.isBlank = c :: rest ++ after := by
    rw [List.append_assoc, List.dropWhile_append_of_pos hbefore, List.cons_append,
      List.dropWhile_cons_of_neg (by simp [hc])]
  have hlast : (c :: rest ++ after).reverse.dropWhile Text.isBlank = (c :: rest).reverse := by
    rw [List.reverse_append, List.dropWhile_append_of_pos fun d hd =>
      hafter d (List.mem_reverse.1 hd)]
    obtain ⟨d, init, hinit⟩ := List.exists_cons_of_ne_nil
      (List.reverse_ne_nil_iff.2 ht.nonempty)
    have hd := ht.last d (by rw [← List.head?_reverse, hinit, List.head?_cons])
    rw [hinit, List.dropWhile_cons_of_neg (by simp [hd])]
  rw [Text.trimWhere, hfirst, hlast, List.reverse_reverse]

theorem trimmed_trimWhere (h : Text.trimWhere Text.isBlank s ≠ []) :
    Trimmed (Text.trimWhere Text.isBlank s) :=
  ⟨h, fun _ => Text.not_of_head?_trimWhere, fun _ => Text.not_of_getLast?_trimWhere⟩

theorem after_of_blank (h : n.Sane) (hs : Blank s) : n.after s = n :=
  after_of_inert h fun c hc => isInert_of_isBlank (hs c hc)

theorem after_trimWhere :
    Nesting.after {} (Text.trimWhere Text.isBlank s) = Nesting.after {} s := by
  obtain ⟨before, after, hs, hbefore, hafter⟩ := Text.exists_trimWhere Text.isBlank s
  conv_rhs => rw [hs]
  rw [after_append, after_append, after_of_blank .top hbefore,
    after_of_blank (Sane.top.after _) hafter]

end Blanks

theorem padded_iff : Padded ts pieces ↔
    ts = (pieces.map (Text.trimWhere Text.isBlank)).filter (!·.isEmpty) := by
  constructor
  · intro h
    induction h with
    | nil => rfl
    | blank hpiece _ ih =>
      rw [List.map_cons, trimWhere_of_blank hpiece, List.filter_cons_of_neg (by simp), ← ih]
    | token hbefore ht hafter _ ih =>
      rw [List.map_cons, trimWhere_around_token hbefore ht hafter,
        List.filter_cons_of_pos (by simpa using ht.nonempty), ← ih]
  · rintro rfl
    induction pieces with
    | nil => exact .nil
    | cons piece rest ih =>
      obtain ⟨before, after, hpiece, hbefore, hafter⟩ := Text.exists_trimWhere Text.isBlank piece
      rw [List.map_cons]
      by_cases hempty : Text.trimWhere Text.isBlank piece = []
      · rw [hempty, List.append_nil] at hpiece
        rw [hempty, List.filter_cons_of_neg (by simp)]
        refine .blank (fun c hc => ?_) ih
        rw [hpiece, List.mem_append] at hc
        exact hc.elim (hbefore c) (hafter c)
      · rw [List.filter_cons_of_pos (by simpa using hempty)]
        have hpadded := Padded.token hbefore (trimmed_trimWhere hempty) hafter ih
        rwa [← hpiece] at hpadded

/-- Splitting finds the tokens that a text spreads, and there is no other way to spread any. -/
theorem splitChars_eq_iff : splitChars s = ts ↔ Spreads ts s := by
  constructor
  · rintro rfl
    exact ⟨stretches {} s, (intercalate_stretches {} s).symm, cut_stretches {} s,
      padded_iff.2 rfl⟩
  · rintro ⟨pieces, rfl, hcut, hpadded⟩
    rw [splitChars, hcut.stretches_intercalate, padded_iff.1 hpadded]

theorem Padded.trimmed (h : Padded ts pieces) : ∀ t ∈ ts, Trimmed t := by
  induction h with
  | nil => nofun
  | blank _ _ ih => exact ih
  | token _ ht _ _ ih => exact List.forall_mem_cons.2 ⟨ht, ih⟩

theorem Padded.sublist (h : Padded ts pieces) :
    ts.Sublist (pieces.map (Text.trimWhere Text.isBlank)) :=
  padded_iff.1 h ▸ List.filter_sublist

theorem Cut.map_trimWhere (h : Cut {} pieces) :
    Cut {} (pieces.map (Text.trimWhere Text.isBlank)) := by
  induction pieces with
  | nil => cases h
  | cons piece rest ih =>
    cases h with
    | last hpiece => exact .last hpiece.trimWhere
    | more hpiece hafter hrest =>
      exact .more hpiece.trimWhere (after_trimWhere.trans hafter) (ih hrest)

theorem Spreads.splitChars_intercalate (h : Spreads ts s) :
    splitChars (['|'].intercalate ts) = ts := by
  obtain ⟨pieces, -, hcut, hpadded⟩ := h
  by_cases hts : ts = []
  · rw [hts]
    rfl
  · refine TypeExpr.splitChars_intercalate (hcut.map_trimWhere.sublist hpadded.sublist hts) ?_
    intro t ht
    have htrimmed := hpadded.trimmed t ht
    exact ⟨Text.trimWhere_eq_self htrimmed.first htrimmed.last, htrimmed.nonempty⟩

theorem map_toList_split (e : String) : (split e).map String.toList = splitChars e.toList := by
  simp [split, Function.comp_def]

/-- Tokens are trimmed. Joined by bars they are the text up to blanks around its alternatives and
alternatives that are empty, and splitting them again changes nothing. -/
theorem split_rejoined (e : String) :
    (∀ t ∈ split e, Trimmed t.toList) ∧
    Spreads ((split e).map String.toList) e.toList ∧
    split (String.intercalate "|" (split e)) = split e := by
  have hspreads : Spreads ((split e).map String.toList) e.toList :=
    splitChars_eq_iff.1 (map_toList_split e).symm
  refine ⟨fun t ht => ?_, hspreads, ?_⟩
  · obtain ⟨pieces, -, -, hpadded⟩ := hspreads
    exact hpadded.trimmed t.toList (List.mem_map_of_mem ht)
  · have hagain : splitChars (String.intercalate "|" (split e)).toList = splitChars e.toList := by
      rw [String.toList_intercalate]
      exact hspreads.splitChars_intercalate.trans (map_toList_split e)
    rw [split, hagain, split]

/-- A bar behind a closing bracket that none has opened stays in its token, and so does an open
quote. -/
example : split " a>|b<| |\"c|  " = ["a>|b<", "\"c|"] := by decide +kernel

end HydraClient.TypeExpr
