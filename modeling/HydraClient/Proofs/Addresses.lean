import HydraClient.Metadata.Origin
import HydraClient.Proofs.NameLetters
import Mathlib.Data.List.TakeWhile

/-! # Origins are addresses of their own

What an address is reduced to has a scheme in lower case and an authority that ends where the
address does. Reducing it once more changes nothing.
-/
namespace HydraClient.Metadata.Origin

theorem toNat_of_isSchemeChar {c : Char} (h : isSchemeChar c = true) : c.toNat < 128 := by
  simp only [isSchemeChar, Bool.or_eq_true, beq_iff_eq] at h
  rcases h with ((h | rfl) | rfl) | rfl
  · exact Text.toNat_of_isAlphanum h
  all_goals decide

theorem of_isSchemeChar {P : Char → Bool} {c : Char} (h : isSchemeChar c = true)
    (hall : ∀ n < 128, isSchemeChar (Char.ofNat n) = true → P (Char.ofNat n) = true) :
    P c = true :=
  Text.of_ascii h (toNat_of_isSchemeChar h) hall

structure IsScheme (s : List Char) : Prop where
  first : ∃ c rest, s = c :: rest ∧ c.isAlpha = true
  chars : ∀ c ∈ s, isSchemeChar c = true ∧ c.isUpper = false

theorem isScheme_map_toLower {c : Char} {rest : List Char} (hfirst : c.isAlpha = true)
    (hchars : ∀ d ∈ c :: rest, isSchemeChar d = true) :
    IsScheme ((c :: rest).map Char.toLower) where
  first := by
    have halpha : (!c.isAlpha || c.toLower.isAlpha) = true :=
      of_isSchemeChar (P := fun d => !d.isAlpha || d.toLower.isAlpha)
        (hchars c List.mem_cons_self) (by decide)
    rw [hfirst, Bool.not_true, Bool.false_or] at halpha
    exact ⟨c.toLower, rest.map Char.toLower, rfl, halpha⟩
  chars := by
    intro d hd
    obtain ⟨e, he, rfl⟩ := List.mem_map.1 hd
    have hlower := of_isSchemeChar (P := fun d => isSchemeChar d.toLower && !d.toLower.isUpper)
      (hchars e he) (by decide)
    simpa using hlower

namespace IsScheme

variable {scheme : List Char}

theorem map_toLower (h : IsScheme scheme) : scheme.map Char.toLower = scheme := by
  refine (List.map_congr_left fun c hc => ?_).trans (List.map_id scheme)
  obtain ⟨hchar, hupper⟩ := h.chars c hc
  have hlower := of_isSchemeChar (P := fun d => d.isUpper || d.toLower == d) hchar (by decide)
  simpa [hupper] using hlower

theorem ne_of_mem (h : IsScheme scheme) {c : Char} (hc : c ∈ scheme) :
    0x20 < c.toNat ∧ c ≠ ':' := by
  have hplain := of_isSchemeChar (P := fun d => decide (0x20 < d.toNat) && d != ':')
    (h.chars c hc).1 (by decide)
  simpa using hplain

theorem scheme?_append (h : IsScheme scheme) (rest : List Char) :
    scheme? (scheme ++ ':' :: rest) = some (scheme, rest) := by
  have hhead : (scheme ++ ':' :: rest).takeWhile (· != ':') = scheme := by
    rw [List.takeWhile_append_of_pos fun c hc => by simpa using (h.ne_of_mem hc).2,
      List.takeWhile_cons_of_neg (by simp), List.append_nil]
  have hall : scheme.all isSchemeChar = true := List.all_eq_true.2 fun c hc => (h.chars c hc).1
  obtain ⟨c, more, hfirst, halpha⟩ := h.first
  have hlower := h.map_toLower
  rw [scheme?, hhead, List.drop_left]
  subst hfirst
  simp [halpha, hlower] at hall ⊢
  exact hall

end IsScheme

theorem isScheme_of_scheme? {s scheme rest : List Char} (h : scheme? s = some (scheme, rest)) :
    IsScheme scheme ∧ rest <:+ s := by
  rw [scheme?] at h
  split at h
  · rename_i rest' c more hdrop hhead
    rw [Option.ite_none_right_eq_some, Bool.and_eq_true, Option.some.injEq, Prod.mk.injEq] at h
    obtain ⟨⟨halpha, hall⟩, rfl, rfl⟩ := h
    rw [hhead] at hall ⊢
    refine ⟨isScheme_map_toLower halpha (List.all_eq_true.1 hall), ?_⟩
    exact (List.suffix_cons ':' rest').trans (hdrop ▸ List.drop_suffix _ s)
  · cases h

structure IsAuthority (s : List Char) : Prop where
  nonempty : s ≠ []
  chars : ∀ c ∈ s, c ≠ '/' ∧ c ≠ '?' ∧ c ≠ '#'

theorem mem_authority {s : List Char} {c : Char} (h : c ∈ authority s) :
    c ∈ s ∧ c ≠ '/' ∧ c ≠ '?' ∧ c ≠ '#' := by
  unfold authority at h
  split at h
  · rename_i rest
    have hmem : c ∈ rest := (List.takeWhile_subset _) h
    have hplain := List.mem_takeWhile_imp h
    exact ⟨by simp [hmem], by simpa [and_assoc] using hplain⟩
  · cases h

theorem IsAuthority.authority_append {s : List Char} (h : IsAuthority s) :
    authority ('/' :: '/' :: s) = s := by
  rw [authority, List.takeWhile_eq_self_iff]
  intro c hc
  simpa [and_assoc] using h.chars c hc

def isBreak (c : Char) : Bool := c == '\t' || c == '\n' || c == '\r'

theorem isBreak_of_visible {c : Char} (h : 0x20 < c.toNat) : isBreak c = false := by
  simp only [isBreak, Bool.or_eq_false_iff, beq_eq_false_iff_ne]
  refine ⟨⟨?_, ?_⟩, ?_⟩
  all_goals
    rintro rfl
    exact absurd h (by decide)

theorem isBreak_of_mem_clean {s : List Char} {c : Char} (h : c ∈ clean s) : isBreak c = false := by
  rw [clean, List.mem_filter] at h
  have := h.2
  simp only [Bool.and_eq_true, bne_iff_ne] at this
  simpa [isBreak, and_assoc] using this

theorem clean_eq_self {c : Char} {rest : List Char} (hc : 0x20 < c.toNat)
    (hrest : ∀ d ∈ c :: rest, isBreak d = false) : clean (c :: rest) = c :: rest := by
  rw [clean, List.dropWhile_cons_of_neg (by simpa using hc), List.filter_eq_self]
  intro d hd
  have := hrest d hd
  simp only [isBreak, Bool.or_eq_false_iff, beq_eq_false_iff_ne] at this
  simpa [and_assoc] using this

/-- What is kept of an address: a scheme and an authority that nothing speaks against. -/
structure Kept (origin : String) (start host : List Char) : Prop where
  text : origin = String.ofList start ++ "://" ++ String.ofList host
  scheme : IsScheme start
  authority : IsAuthority host
  unbroken : ∀ c ∈ host, isBreak c = false
  accepted : objection? host = none

theorem kept_of_ofUrl {url origin : String} (h : ofUrl url = .ok origin) :
    ∃ start host, Kept origin start host := by
  rw [ofUrl] at h
  cases hscheme : scheme? (clean url.toList) with
  | none =>
    simp only [hscheme, Option.getD_none] at h
    split at h
    · cases h
    · cases h
  | some pair =>
    obtain ⟨start, rest⟩ := pair
    obtain ⟨hstart, hrest⟩ := isScheme_of_scheme? hscheme
    simp only [hscheme, Option.getD_some] at h
    split at h
    · cases h
    · rename_i haccepted
      split at h
      · cases h
      · rename_i hnonempty
        rw [Bool.or_eq_true, not_or, List.isEmpty_iff, List.isEmpty_iff] at hnonempty
        refine ⟨start, authority rest, (Except.ok.inj h).symm, hstart,
          ⟨hnonempty.2, fun c hc => (mem_authority hc).2⟩, fun c hc => ?_, haccepted⟩
        exact isBreak_of_mem_clean (hrest.subset (mem_authority hc).1)

theorem Kept.ofUrl_eq {origin : String} {start host : List Char} (h : Kept origin start host) :
    ofUrl origin = .ok origin := by
  have hlist : origin.toList = start ++ ':' :: '/' :: '/' :: host := by
    rw [h.text]
    simp
  have hclean : clean origin.toList = origin.toList := by
    obtain ⟨c, rest, hfirst, -⟩ := h.scheme.first
    have hvisible : ∀ d ∈ start, 0x20 < d.toNat := fun d hd => (h.scheme.ne_of_mem hd).1
    have hplain : ∀ d ∈ origin.toList, isBreak d = false := by
      intro d hd
      rw [hlist, List.mem_append] at hd
      rcases hd with hd | hd
      · exact isBreak_of_visible (hvisible d hd)
      · simp only [List.mem_cons] at hd
        rcases hd with rfl | rfl | rfl | hd
        · rfl
        · rfl
        · rfl
        · exact h.unbroken d hd
    rw [hlist, hfirst, List.cons_append] at hplain ⊢
    exact clean_eq_self (hvisible c (hfirst ▸ List.mem_cons_self)) hplain
  have hscheme : scheme? origin.toList = some (start, '/' :: '/' :: host) := by
    rw [hlist]
    exact h.scheme.scheme?_append _
  have hstart : start ≠ [] := by
    obtain ⟨c, rest, hfirst, -⟩ := h.scheme.first
    exact hfirst ▸ List.cons_ne_nil c rest
  simp only [ofUrl, hclean, hscheme, Option.getD_some, h.authority.authority_append, h.accepted]
  rw [if_neg (by simp [hstart, h.authority.nonempty]), ← h.text]

end HydraClient.Metadata.Origin
