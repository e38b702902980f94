import HydraClient.Proofs.Headers

/-! # Comments above a banner

Comments that stand above a banner belong to the header with it. The body is what follows the empty
line, whatever it begins with, and the file is frozen if one of the comments opts out.
-/
namespace HydraClient

namespace Text

def CaseRun.Wide (r : CaseRun) : Prop :=
  0x80 ≤ r.first + r.shift ∧
    (r.last + r.shift < 0xD800 ∨ 0xDFFF < r.first + r.shift ∧ r.last + r.shift < 0x110000)

instance (r : CaseRun) : Decidable r.Wide := inferInstanceAs (Decidable (_ ∧ (_ ∨ _)))

/-- Of the characters beyond ASCII only the sign of the kelvin becomes a letter of ASCII. -/
theorem lowerRuns_wide : ∀ r ∈ lowerRuns, r.Wide ∨ r = ⟨0x212a, 0x212a, 1, -8383⟩ := by
  decide +kernel

theorem CaseRun.Wide.toNat_image {r : CaseRun} (hr : r.Wide) {n : Nat} (h : r.covers n = true) :
    0x80 ≤ (r.image n).toNat := by
  obtain ⟨hfirst, hvalid⟩ := hr
  have hn : r.first ≤ n ∧ n ≤ r.last := by
    simp only [covers, Bool.and_eq_true, decide_eq_true_eq] at h
    exact h.1
  have himage : (n + r.shift).toNat.isValidChar :=
    hvalid.imp (fun _ => by omega) fun _ => by omega
  have htoNat : (Char.ofNatAux (n + r.shift).toNat himage).toNat = (n + r.shift).toNat :=
    UInt32.toNat_ofNatLT
  rw [image, Char.ofNat, dif_pos himage, htoNat]
  omega

/-- A character beyond ASCII is lower-cased beyond the letters of ASCII, but for one `k`. -/
theorem exists_wide_of_lowerChar {c : Char} (h : 0x80 ≤ c.toNat) :
    ∃ d ∈ lowerChar c, 0x80 ≤ d.toNat ∨ d = 'k' := by
  rw [lowerChar, if_neg (by omega)]
  split
  · exact ⟨'\u0307', by simp, .inl (by decide)⟩
  · split
    · rename_i r hr
      refine ⟨_, List.mem_singleton_self _, ?_⟩
      have hcovers : r.covers c.toNat = true :=
        List.find?_some (p := fun r : CaseRun => r.covers c.toNat) hr
      rcases lowerRuns_wide r (List.mem_of_find?_eq_some hr) with hwide | rfl
      · exact .inl (hwide.toNat_image hcovers)
      · have hc : c.toNat = 0x212a := by
          simp only [CaseRun.covers, Bool.and_eq_true, decide_eq_true_eq] at hcovers
          omega
        exact .inr (by rw [hc]; decide)
    · exact ⟨c, List.mem_singleton_self c, .inl h⟩

theorem exists_wide_of_lowerFrom {c : Char} (h : 0x80 ≤ c.toNat) {s : List Char} (hc : c ∈ s)
    (before : List Char) : ∃ d ∈ lowerFrom before s, 0x80 ≤ d.toNat ∨ d = 'k' := by
  induction s generalizing before with
  | nil => exact absurd hc List.not_mem_nil
  | cons a rest ih =>
    rw [lowerFrom]
    rcases List.mem_cons.1 hc with rfl | hrest
    · split
      · exact ⟨'ς', by simp, .inl (by decide)⟩
      · obtain ⟨d, hd, hwide⟩ := exists_wide_of_lowerChar h
        exact ⟨d, List.mem_append_left _ hd, hwide⟩
    · obtain ⟨d, hd, hwide⟩ := ih hrest (a :: before)
      exact ⟨d, List.mem_append_right _ hd, hwide⟩

theorem map_toLower_of_lowerChars {s t : List Char} (ht : ∀ d ∈ t, d.toNat < 0x80 ∧ d ≠ 'k')
    (h : lowerChars s = t) : s.map Char.toLower = t := by
  have hascii : ∀ c ∈ s, c.toNat < 0x80 := by
    intro c hc
    by_contra hwide
    obtain ⟨d, hd, hd'⟩ := exists_wide_of_lowerFrom (by omega) hc []
    have := ht d (h ▸ hd)
    rcases hd' with hd' | hd'
    · omega
    · exact this.2 hd'
  exact lowerFrom_of_ascii hascii [] ▸ h

end Text

namespace Header

theorem annotation?_eq_optOut_iff {line : String} :
    annotation? line = some optOut ↔ IsMark line := by
  have hall : (optOut.toList.all fun d => d.toNat < 0x80 ∧ d ≠ 'k') = true := by decide
  have hplain : ∀ d ∈ optOut.toList, d.toNat < 0x80 ∧ d ≠ 'k' :=
    fun d hd => of_decide_eq_true (List.all_eq_true.1 hall d hd)
  rw [annotation?_eq_some_iff]
  constructor
  · rintro ⟨blanks, word, rest, hline, hblanks, -, -, hrest, hname⟩
    have hlower : Text.lowerChars word = optOut.toList := by rw [← hname, String.toList_ofList]
    exact ⟨blanks, word, rest, hline, hblanks, Text.map_toLower_of_lowerChars hplain hlower, hrest⟩
  · exact fun h => annotation?_eq_some_iff.1 (annotation?_of_isMark h)

theorem isFrozen_iff {h : Header} : h.isFrozen = true ↔ optOut ∈ h.annotations :=
  List.contains_iff_mem

/-- What stands above a banner and below it is read back exactly. The comments above decide whether
the file is frozen, the body has no say in it. -/
theorem parse_comments_write {comments : List String} {command : String}
    (hcomments : ∀ l ∈ comments, isComment l = true ∧ '\n' ∉ l.toList)
    (hcommand : '\n' ∉ command.toList) (time : Timestamp) (body : String) :
    (parse (write (Text.joinLines (comments ++ [banner command time])) body)).body = body ∧
      (parse (write (Text.joinLines (comments ++ [banner command time])) body)).lines =
        comments ++ Text.lines (banner command time) ∧
      ((parse (write (Text.joinLines (comments ++ [banner command time])) body)).isFrozen = true ↔
        ∃ l ∈ comments, IsMark l) := by
  rw [parse_write_under comments hcomments hcommand time body]
  refine ⟨rfl, rfl, ?_⟩
  rw [isFrozen_iff, List.mem_filterMap]
  simp only [annotation?_eq_optOut_iff]

theorem parse_comments_write_marked :
    let comments := ["// kept by hand", "//\t@No-Regenerate (ask first)"]
    let time : Timestamp := ⟨2024, 2, 29, 1, 2, 3, some 0⟩
    let parsed := parse (write (Text.joinLines (comments ++ [banner "hydra generate" time]))
      "// @other\n\nconst a = 1;\n")
    ((∀ l ∈ comments, isComment l = true ∧ '\n' ∉ l.toList) ∧ '\n' ∉ "hydra generate".toList) ∧
      parsed.body = "// @other\n\nconst a = 1;\n" ∧
      parsed.lines = comments ++ Text.lines (banner "hydra generate" time) ∧
      parsed.isFrozen = true := by
  intro comments time
  have hcomments : ∀ l ∈ comments, isComment l = true ∧ '\n' ∉ l.toList := by decide
  have hcommand : '\n' ∉ "hydra generate".toList := by decide
  obtain ⟨hbody, hlines, hfrozen⟩ :=
    parse_comments_write hcomments hcommand time "// @other\n\nconst a = 1;\n"
  have hmark : IsMark "//\t@No-Regenerate (ask first)" := by
    refine ⟨['\t'], "No-Regenerate".toList, " (ask first)".toList, rfl,
      List.all_eq_true.1 (by decide), by decide, fun c hc => ?_⟩
    obtain rfl : ' ' = c := Option.some.inj hc
    decide
  exact ⟨⟨hcomments, hcommand⟩, hbody, hlines, hfrozen.2 ⟨_, by decide, hmark⟩⟩

end Header
end HydraClient
