import HydraClient.TypeExpr
import Mathlib.Data.List.Infix

/-! # Alternations

The scanner carries a nesting through a text and cuts it at each bar that it meets at the top.
Pieces that bars join are found again exactly when none of them has a bar at the top and the scanner
is back at the top after each of them but the last. Pieces of a balanced text are balanced, and so
are brackets around it, which hide its bars.
-/
namespace HydraClient.TypeExpr

def isInert (c : Char) : Bool := !(c == '"' || c == '\'' || isOpening c || isClosing c)

theorem isInert_of_isBlank {c : Char} (h : Text.isBlank c = true) : isInert c = true := by
  by_contra hc
  simp only [isInert, isOpening, isClosing, Bool.not_eq_true, Bool.not_eq_false', Bool.or_eq_true,
    beq_iff_eq] at hc
  rcases hc with ((rfl | rfl) | ((rfl | rfl) | rfl) | rfl) | ((rfl | rfl) | rfl) | rfl <;>
    exact absurd h (by decide)

namespace Nesting

variable {n : Nesting} {c : Char} {s t : List Char}

def after (n : Nesting) (s : List Char) : Nesting := s.foldl step n

@[simp] theorem after_nil : n.after [] = n := rfl

@[simp] theorem after_cons : n.after (c :: s) = (n.step c).after s := rfl

@[simp] theorem after_append : n.after (s ++ t) = (n.after s).after t := List.foldl_append

theorem isTop_iff : n.isTop = true ↔ n = {} := by
  obtain ⟨depth, quote⟩ := n
  simp [isTop]

/-- Only the two quotation marks open a quote. -/
def Sane (n : Nesting) : Prop := ∀ q, n.quote = some q → q = '"' ∨ q = '\''

theorem Sane.top : Sane {} := nofun

theorem Sane.step (h : n.Sane) (c : Char) : (n.step c).Sane := by
  intro q hq
  unfold Nesting.step at hq
  split at hq
  · split at hq
    · cases hq
    · exact h q hq
  · rename_i hnone
    split at hq
    · rename_i hc
      obtain rfl := Option.some.inj hq
      simpa using hc
    · split at hq
      · exact h q hq
      · split at hq <;> exact h q hq

theorem Sane.after (h : n.Sane) (s : List Char) : (n.after s).Sane := by
  induction s generalizing n with
  | nil => exact h
  | cons c rest ih => exact ih (h.step c)

theorem step_of_inert (h : n.Sane) (hc : isInert c = true) : n.step c = n := by
  simp only [isInert, Bool.not_eq_true', Bool.or_eq_false_iff, beq_eq_false_iff_ne] at hc
  obtain ⟨⟨⟨hdouble, hsingle⟩, hopening⟩, hclosing⟩ := hc
  unfold step
  split
  · rename_i q hq
    have hne : c ≠ q := by
      rintro rfl
      exact (h c hq).elim hdouble hsingle
    rw [if_neg hne]
  · simp [hdouble, hsingle, hopening, hclosing]

theorem after_of_inert (h : n.Sane) (hs : ∀ c ∈ s, isInert c = true) : n.after s = n := by
  induction s with
  | nil => rfl
  | cons c rest ih =>
    rw [after_cons, step_of_inert h (hs c (by simp))]
    exact ih fun c' hc' => hs c' (List.mem_cons_of_mem _ hc')

theorem after_of_not_mem {q : Char} (hn : n.quote = some q) (hs : q ∉ s) : n.after s = n := by
  induction s with
  | nil => rfl
  | cons c rest ih =>
    rw [List.mem_cons, not_or] at hs
    have hstep : n.step c = n := by
      unfold step
      rw [hn]
      exact if_neg (Ne.symm hs.1)
    rw [after_cons, hstep, ih hs.2]

def deepen (n : Nesting) (k : Int) : Nesting := { n with depth := n.depth + k }

@[simp] theorem step_deepen {k : Int} : (n.deepen k).step c = (n.step c).deepen k := by
  obtain ⟨depth, quote⟩ := n
  cases quote with
  | some q =>
    by_cases hq : c = q <;> simp [step, deepen, hq]
  | none =>
    unfold step deepen
    dsimp only
    split
    · rfl
    · split
      · simp only [Nesting.mk.injEq, and_true]
        omega
      · split
        · simp only [Nesting.mk.injEq, and_true]
          omega
        · rfl

@[simp] theorem after_deepen {k : Int} : (n.deepen k).after s = (n.after s).deepen k := by
  induction s generalizing n with
  | nil => rfl
  | cons c rest ih => rw [after_cons, step_deepen, ih, after_cons]

end Nesting

open Nesting

variable {n : Nesting} {c : Char} {s t : List Char} {ts : List (List Char)}

section Pieces

/-- From a nesting on, no bar of the text stands at the top. -/
def Unbarred (n : Nesting) : List Char → Prop
  | [] => True
  | c :: rest => ¬(c = '|' ∧ n = {}) ∧ Unbarred (n.step c) rest

theorem unbarred_append : Unbarred n (s ++ t) ↔ Unbarred n s ∧ Unbarred (n.after s) t := by
  induction s generalizing n with
  | nil => simp [Unbarred]
  | cons c rest ih => rw [List.cons_append, Unbarred, Unbarred, ih, after_cons, and_assoc]

theorem unbarred_of_not_mem (h : '|' ∉ s) : Unbarred n s := by
  induction s generalizing n with
  | nil => trivial
  | cons c rest ih =>
    rw [List.mem_cons, not_or] at h
    exact ⟨fun hc => h.1 hc.1.symm, ih h.2⟩

/-- A text throughout which the scan is below the top hides its bars. -/
theorem unbarred_of_below (h : ∀ a, a <+: s → n.after a ≠ {}) : Unbarred n s := by
  induction s generalizing n with
  | nil => trivial
  | cons c rest ih =>
    refine ⟨fun hc => h [] (List.nil_prefix) hc.2, ih fun a ha => ?_⟩
    exact h (c :: a) (List.cons_prefix_cons.2 ⟨rfl, ha⟩)

theorem stretches_bar : stretches {} ('|' :: s) = [] :: stretches {} s := rfl

theorem exists_stretches (n : Nesting) (s : List Char) :
    ∃ first more, stretches n s = first :: more := by
  cases s with
  | nil => exact ⟨[], [], rfl⟩
  | cons c rest =>
    rw [stretches]
    split
    · exact ⟨[], _, rfl⟩
    · split
      · exact ⟨[c], [], rfl⟩
      · exact ⟨_, _, rfl⟩

theorem stretches_cons {first : List Char} {more : List (List Char)} (hc : ¬(c = '|' ∧ n = {}))
    (h : stretches (n.step c) s = first :: more) :
    stretches n (c :: s) = (c :: first) :: more := by
  have htest : ¬(decide (c = '|') && n.isTop) = true := by
    rwa [Bool.and_eq_true, decide_eq_true_eq, isTop_iff]
  rw [stretches, if_neg htest, h]

theorem stretches_of_unbarred (h : Unbarred n s) : stretches n s = [s] := by
  induction s generalizing n with
  | nil => rfl
  | cons c rest ih => exact stretches_cons h.1 (ih h.2)

theorem stretches_append_bar (h : n.after s = {}) (t : List Char) :
    stretches n (s ++ '|' :: t) = stretches n s ++ stretches {} t := by
  induction s generalizing n with
  | nil =>
    obtain rfl : n = {} := h
    rfl
  | cons c rest ih =>
    by_cases hc : c = '|' ∧ n = {}
    · obtain ⟨rfl, rfl⟩ := hc
      rw [List.cons_append, stretches_bar, stretches_bar, List.cons_append]
      exact congrArg _ (ih h)
    · obtain ⟨first, more, hrest⟩ := exists_stretches (n.step c) rest
      have hjoined := ih (n := n.step c) h
      rw [hrest, List.cons_append] at hjoined
      rw [List.cons_append, stretches_cons hc hjoined, stretches_cons hc hrest, List.cons_append]

/-- Pieces between which the scanner is at the top, and within which no bar is. -/
inductive Cut : Nesting → List (List Char) → Prop where
  | last {n : Nesting} {t : List Char} : Unbarred n t → Cut n [t]
  | more {n : Nesting} {t : List Char} {ts : List (List Char)} :
      Unbarred n t → n.after t = {} → Cut {} ts → Cut n (t :: ts)

namespace Cut

theorem ne_nil (h : Cut n ts) : ts ≠ [] := by
  cases h <;> exact List.cons_ne_nil _ _

theorem unbarred (h : Cut {} ts) : ∀ t ∈ ts, Unbarred {} t := by
  induction ts with
  | nil => nofun
  | cons t rest ih =>
    intro u hu
    cases h with
    | last ht =>
      obtain rfl := List.mem_singleton.1 hu
      exact ht
    | more ht _ hrest =>
      rcases List.mem_cons.1 hu with rfl | hu
      · exact ht
      · exact ih hrest u hu

theorem sublist {us : List (List Char)} (h : Cut {} ts) (hsub : us.Sublist ts) (hne : us ≠ []) :
    Cut {} us := by
  induction ts generalizing us with
  | nil => exact absurd (List.sublist_nil.1 hsub) hne
  | cons t rest ih =>
    cases h with
    | last ht =>
      cases hsub with
      | cons _ hsub => exact absurd (List.sublist_nil.1 hsub) hne
      | cons_cons _ hsub =>
        rw [List.sublist_nil.1 hsub]
        exact .last ht
    | more ht hafter hrest =>
      cases hsub with
      | cons _ hsub => exact ih hrest hsub hne
      | @cons_cons us _ _ hsub =>
        cases us with
        | nil => exact .last ht
        | cons u us => exact .more ht hafter (ih hrest hsub (List.cons_ne_nil _ _))

theorem stretches_intercalate (h : Cut n ts) : stretches n (['|'].intercalate ts) = ts := by
  induction h with
  | last ht => rw [List.intercalate_singleton, stretches_of_unbarred ht]
  | more ht hafter hrest ih =>
    rw [List.intercalate_cons_of_ne_nil hrest.ne_nil, List.append_assoc, List.singleton_append,
      stretches_append_bar hafter, stretches_of_unbarred ht, ih, List.singleton_append]

end Cut

theorem cut_of_closed (hne : ts ≠ [])
    (h : ∀ t ∈ ts, Unbarred {} t ∧ Nesting.after {} t = {}) : Cut {} ts := by
  induction ts with
  | nil => exact absurd rfl hne
  | cons t rest ih =>
    obtain ⟨hunbarred, hclosed⟩ := h t (by simp)
    cases rest with
    | nil => exact .last hunbarred
    | cons u rest =>
      exact .more hunbarred hclosed (ih (by simp) fun v hv => h v (List.mem_cons_of_mem _ hv))

theorem cut_stretches (n : Nesting) (s : List Char) : Cut n (stretches n s) := by
  -- The rest is scanned from the nesting that the first character leaves.
  induction s generalizing n with
  | nil => exact .last trivial
  | cons c rest ih =>
    by_cases hc : c = '|' ∧ n = {}
    · obtain ⟨rfl, rfl⟩ := hc
      exact .more trivial rfl (ih {})
    · obtain ⟨first, more, hrest⟩ := exists_stretches (n.step c) rest
      rw [stretches_cons hc hrest]
      have hcut := ih (n.step c)
      rw [hrest] at hcut
      cases hcut with
      | last ht => exact .last ⟨hc, ht⟩
      | more ht hafter hmore => exact .more ⟨hc, ht⟩ hafter hmore

theorem intercalate_stretches (n : Nesting) (s : List Char) :
    ['|'].intercalate (stretches n s) = s := by
  induction s generalizing n with
  | nil => rfl
  | cons c rest ih =>
    by_cases hc : c = '|' ∧ n = {}
    · obtain ⟨rfl, rfl⟩ := hc
      obtain ⟨first, more, hrest⟩ := exists_stretches {} rest
      have hjoined := ih {}
      rw [hrest] at hjoined
      rw [stretches_bar, hrest, List.intercalate_cons_cons, List.nil_append, hjoined]
      rfl
    · obtain ⟨first, more, hrest⟩ := exists_stretches (n.step c) rest
      have hjoined := ih (n.step c)
      rw [hrest] at hjoined
      rw [stretches_cons hc hrest]
      cases more with
      | nil =>
        rw [List.intercalate_singleton] at hjoined ⊢
        rw [hjoined]
      | cons second more =>
        rw [List.intercalate_cons_cons] at hjoined ⊢
        rw [List.cons_append, List.cons_append, hjoined]

/-- Joined pieces are found again exactly if they are cut. -/
theorem stretches_intercalate_iff : stretches n (['|'].intercalate ts) = ts ↔ Cut n ts := by
  constructor
  · intro h
    exact h ▸ cut_stretches n _
  · exact Cut.stretches_intercalate

instance (n : Nesting) (ts : List (List Char)) : Decidable (Cut n ts) :=
  decidable_of_iff _ stretches_intercalate_iff

end Pieces

section Balance

def Above (n : Nesting) (s : List Char) : Prop := ∀ a, a <+: s → 0 ≤ (n.after a).depth

instance (n : Nesting) (s : List Char) : Decidable (Above n s) :=
  decidable_of_iff (∀ a ∈ s.inits, 0 ≤ (n.after a).depth) (by simp only [List.mem_inits, Above])

theorem above_cons : Above n (c :: s) ↔ 0 ≤ n.depth ∧ Above (n.step c) s := by
  constructor
  · intro h
    refine ⟨h [] List.nil_prefix, fun a ha => ?_⟩
    exact h (c :: a) (List.cons_prefix_cons.2 ⟨rfl, ha⟩)
  · rintro ⟨hn, h⟩ a ha
    cases a with
    | nil => exact hn
    | cons c' a =>
      obtain ⟨rfl, hrest⟩ := List.cons_prefix_cons.1 ha
      exact h a hrest

theorem above_append : Above n (s ++ t) ↔ Above n s ∧ Above (n.after s) t := by
  induction s generalizing n with
  | nil =>
    refine ⟨fun h => ⟨fun a ha => ?_, h⟩, And.right⟩
    rw [List.prefix_nil.1 ha]
    exact h [] List.nil_prefix
  | cons c rest ih => rw [List.cons_append, above_cons, ih, above_cons, after_cons, and_assoc]

theorem Above.deepen {k : Int} (h : Above n s) (hk : 0 ≤ k) : Above (n.deepen k) s := by
  intro a ha
  have hdepth := h a ha
  rw [after_deepen]
  exact Int.add_nonneg hdepth hk

/-- Brackets are never closed before they are opened, and at the end they and all quotes are
closed. -/
structure Balanced (s : List Char) : Prop where
  nonneg : Above {} s
  closed : Nesting.after {} s = {}

theorem balanced_iff : Balanced s ↔ Above {} s ∧ Nesting.after {} s = {} :=
  ⟨fun h => ⟨h.nonneg, h.closed⟩, fun h => ⟨h.1, h.2⟩⟩

instance (s : List Char) : Decidable (Balanced s) := decidable_of_iff _ balanced_iff.symm

namespace Balanced

theorem append (hs : Balanced s) (ht : Balanced t) : Balanced (s ++ t) where
  nonneg := above_append.2 ⟨hs.nonneg, by rw [hs.closed]; exact ht.nonneg⟩
  closed := by rw [after_append, hs.closed, ht.closed]

theorem split (h : Balanced (s ++ t)) (hs : Nesting.after {} s = {}) :
    Balanced s ∧ Balanced t := by
  obtain ⟨hleft, hright⟩ := above_append.1 h.nonneg
  have hclosed := h.closed
  rw [after_append, hs] at hclosed
  rw [hs] at hright
  exact ⟨⟨hleft, hs⟩, hright, hclosed⟩

theorem of_inert (h : ∀ c ∈ s, isInert c = true) : Balanced s where
  nonneg := fun a ha => by
    have hafter : Nesting.after {} a = {} := after_of_inert .top fun c hc => h c (ha.subset hc)
    exact Int.le_of_eq (congrArg Nesting.depth hafter).symm
  closed := after_of_inert .top h

theorem trimWhere (h : Balanced s) : Balanced (Text.trimWhere Text.isBlank s) := by
  obtain ⟨before, after, hs, hbefore, hafter⟩ := Text.exists_trimWhere Text.isBlank s
  have hleft : Nesting.after {} before = {} :=
    after_of_inert .top fun c hc => isInert_of_isBlank (hbefore c hc)
  rw [hs, List.append_assoc] at h
  have hmiddle := (h.split hleft).2
  refine (hmiddle.split ?_).1
  have hclosed := hmiddle.closed
  rwa [after_append, after_of_inert (Sane.top.after _)
    fun c hc => isInert_of_isBlank (hafter c hc)] at hclosed

end Balanced

theorem Cut.balanced (h : Cut {} ts) (hjoined : Balanced (['|'].intercalate ts)) :
    ∀ t ∈ ts, Balanced t := by
  induction ts with
  | nil => nofun
  | cons t rest ih =>
    intro u hu
    cases h with
    | last _ =>
      obtain rfl := List.mem_singleton.1 hu
      rwa [List.intercalate_singleton] at hjoined
    | more _ hafter hrest =>
      rw [List.intercalate_cons_of_ne_nil hrest.ne_nil, List.append_assoc] at hjoined
      obtain ⟨ht, hmore⟩ := hjoined.split hafter
      rcases List.mem_cons.1 hu with rfl | hu
      · exact ht
      · exact ih hrest (hmore.split rfl).2 u hu

end Balance

section Tokens

structure IsToken (t : List Char) : Prop where
  balanced : Balanced t
  unbarred : Unbarred {} t
  trimmed : Text.trimWhere Text.isBlank t = t
  nonempty : t ≠ []

theorem mem_splitChars :
    t ∈ splitChars s ↔ ∃ u ∈ stretches {} s, Text.trimWhere Text.isBlank u = t ∧ t ≠ [] := by
  simp only [splitChars, List.mem_filter, List.mem_map, Bool.not_eq_true',
    List.isEmpty_eq_false_iff]
  constructor
  · rintro ⟨⟨u, hu, rfl⟩, hne⟩
    exact ⟨u, hu, rfl, hne⟩
  · rintro ⟨u, hu, rfl, hne⟩
    exact ⟨⟨u, hu, rfl⟩, hne⟩

theorem Unbarred.trimWhere (h : Unbarred {} s) : Unbarred {} (Text.trimWhere Text.isBlank s) := by
  obtain ⟨before, after, hs, hbefore, -⟩ := Text.exists_trimWhere Text.isBlank s
  rw [hs, unbarred_append, unbarred_append,
    after_of_inert .top fun c hc => isInert_of_isBlank (hbefore c hc)] at h
  exact h.1.2

theorem isToken_of_mem_splitChars (h : Balanced s) (ht : t ∈ splitChars s) : IsToken t := by
  obtain ⟨u, hu, rfl, hne⟩ := mem_splitChars.1 ht
  have hcut := cut_stretches {} s
  exact {
    balanced := (hcut.balanced ((intercalate_stretches {} s).symm ▸ h) u hu).trimWhere
    unbarred := (hcut.unbarred u hu).trimWhere
    trimmed := Text.trimWhere_trimWhere
    nonempty := hne }

/-- Trimmed pieces that are cut are the tokens of their alternation. -/
theorem splitChars_intercalate (h : Cut {} ts)
    (ht : ∀ t ∈ ts, Text.trimWhere Text.isBlank t = t ∧ t ≠ []) :
    splitChars (['|'].intercalate ts) = ts := by
  rw [splitChars, h.stretches_intercalate]
  have hmap : ts.map (Text.trimWhere Text.isBlank) = ts :=
    (List.map_congr_left fun t hmem => (ht t hmem).1).trans (List.map_id' ts)
  rw [hmap]
  exact List.filter_eq_self.2 fun t hmem => by simpa using (ht t hmem).2

theorem balanced_intercalate (h : ∀ t ∈ ts, Balanced t) : Balanced (['|'].intercalate ts) := by
  induction ts with
  | nil => exact .of_inert nofun
  | cons t rest ih =>
    have ht := h t (by simp)
    cases rest with
    | nil => rwa [List.intercalate_singleton]
    | cons u rest =>
      rw [List.intercalate_cons_cons]
      exact (ht.append (.of_inert (List.forall_mem_singleton.2 (by decide)))).append
        (ih fun v hv => h v (List.mem_cons_of_mem _ hv))

theorem isToken_array (h : Balanced s) : IsToken ("Array<".toList ++ s ++ ['>']) := by
  have hopen : Nesting.after {} "Array<".toList = Nesting.deepen {} 1 := by decide
  have hinside : Nesting.after {} ("Array<".toList ++ s) = Nesting.deepen {} 1 := by
    rw [after_append, hopen, after_deepen, h.closed]
  refine ⟨⟨?_, ?_⟩, ?_, ?_, by simp⟩
  · rw [above_append, above_append, hinside, hopen]
    exact ⟨⟨by decide, h.nonneg.deepen (by decide)⟩, by decide⟩
  · rw [after_append, hinside]
    decide
  · rw [unbarred_append, unbarred_append, hinside, hopen]
    refine ⟨⟨unbarred_of_not_mem (by decide), unbarred_of_below fun a ha htop => ?_⟩,
      unbarred_of_not_mem (by decide)⟩
    have hdepth := h.nonneg a ha
    rw [after_deepen] at htop
    have := congrArg Nesting.depth htop
    change (Nesting.after {} a).depth + 1 = 0 at this
    omega
  · apply Text.trimWhere_eq_self
    · intro c hc
      obtain rfl : 'A' = c := Option.some.inj hc
      decide
    · intro c hc
      rw [List.getLast?_concat] at hc
      obtain rfl := Option.some.inj hc
      decide

end Tokens

end HydraClient.TypeExpr
