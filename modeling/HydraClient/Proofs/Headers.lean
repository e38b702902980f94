import HydraClient.Header
import HydraClient.Text.Utf8
import Mathlib.Data.Char
import Mathlib.Data.List.TakeWhile

/-! # What a header says

A body that is written below a banner is what is read back, but for its line breaks, and a file that
opts out in its first line is frozen however the line is spelled and ended.
-/
namespace HydraClient

namespace Text

theorem toByteArray_of_decodeUtf8 {content : ByteArray} {s : String}
    (h : decodeUtf8 content = .ok s) : s.toByteArray = content := by
  rw [decodeUtf8] at h
  split at h
  · rw [← Except.ok.inj h]
  · cases h

theorem unifyBreaks_append {s : List Char} (h : '\r' ∉ s) (t : List Char) :
    unifyBreaks (s ++ t) = s ++ unifyBreaks t := by
  induction s with
  | nil => rfl
  | cons c rest ih =>
    rw [List.mem_cons, not_or] at h
    have hc : c ≠ '\r' := fun e => h.1 e.symm
    rw [List.cons_append, unifyBreaks, ih h.2, List.cons_append]
    · rintro _ rfl _; exact hc rfl
    · rintro rfl; exact hc rfl

theorem unifyBreaks_return (t : List Char) : ∃ u, unifyBreaks ('\r' :: t) = '\n' :: u := by
  cases t with
  | nil => exact ⟨_, rfl⟩
  | cons c rest =>
    by_cases h : c = '\n'
    · subst h
      exact ⟨_, rfl⟩
    · refine ⟨unifyBreaks (c :: rest), ?_⟩
      rw [unifyBreaks]
      intro _ e
      exact h (List.cons.inj e).1

theorem no_return_unifyBreaks (s : List Char) : '\r' ∉ unifyBreaks s := by
  fun_induction unifyBreaks s with
  | case1 rest ih => simp [ih]
  | case2 rest _ ih => simp [ih]
  | case3 c rest _ hc ih => simpa [ih] using fun h => hc h.symm
  | case4 => simp

/-- A text as it is read back. -/
def unified (s : String) : String := String.ofList (unifyBreaks s.toList)

theorem unified_eq_self_iff {s : String} : unified s = s ↔ '\r' ∉ s.toList := by
  refine ⟨fun h => ?_, fun h => ?_⟩
  · rw [← h, unified, String.toList_ofList]
    exact no_return_unifyBreaks s.toList
  · rw [unified, unifyBreaks_of_no_return h, String.ofList_toList]

theorem lines_append {s : List Char} (h : '\n' ∉ s) (t : List Char) :
    lines (String.ofList (s ++ '\n' :: t)) = String.ofList s :: lines (String.ofList t) := by
  simp [lines, List.splitOn_append_cons_self_of_not_mem h]

theorem lines_of_no_break {l : String} (h : '\n' ∉ l.toList) : lines l = [l] := by
  rw [lines, List.splitOn_eq_singleton h, List.map_singleton, String.ofList_toList]

theorem lines_joinLines {ls : List String} (h : ls ≠ []) :
    lines (joinLines ls) = ls.flatMap lines := by
  induction ls with
  | nil => exact absurd rfl h
  | cons l rest ih =>
    by_cases hrest : rest = []
    · simp [hrest, joinLines]
    · have hlist : (joinLines (l :: rest)).toList =
          l.toList ++ '\n' :: (joinLines rest).toList := by
        simp [joinLines, String.intercalate_cons_of_ne_nil hrest]
      rw [List.flatMap_cons, ← ih hrest, lines, hlist, List.splitOn_append_cons_self,
        List.map_append, lines, lines]

theorem flatMap_lines {ls : List String} (h : ∀ l ∈ ls, '\n' ∉ l.toList) :
    ls.flatMap lines = ls := by
  induction ls with
  | nil => rfl
  | cons l rest ih =>
    rw [List.flatMap_cons, lines_of_no_break (h l List.mem_cons_self),
      ih fun m hm => h m (List.mem_cons_of_mem l hm), List.singleton_append]

theorem joinLines_lines (s : String) : joinLines (lines s) = s := by
  rw [← String.toList_inj, joinLines, String.toList_intercalate, lines]
  simp [List.map_map, Function.comp_def]

theorem mem_joinLines {c : Char} (hc : c ≠ '\n') {ls : List String} :
    c ∈ (joinLines ls).toList ↔ ∃ l ∈ ls, c ∈ l.toList := by
  rw [joinLines]
  induction ls with
  | nil => simp
  | cons l rest ih =>
    by_cases hrest : rest = []
    · simp [hrest]
    · rw [String.intercalate_cons_of_ne_nil hrest, String.toList_append, List.mem_append, ih,
        String.toList_append, List.mem_append]
      simp [hc]

theorem lowerFrom_of_ascii {s : List Char} (h : ∀ c ∈ s, c.toNat < 0x80) (before : List Char) :
    lowerFrom before s = s.map Char.toLower := by
  induction s generalizing before with
  | nil => rfl
  | cons c rest ih =>
    have hc := h c (List.mem_cons_self ..)
    have hs : c ≠ 'Σ' := by
      rintro rfl
      exact absurd hc (by decide)
    rw [lowerFrom, ih fun a ha => h a (List.mem_cons_of_mem _ ha)]
    simp [hs, lowerChar, hc]

end Text

namespace Header

theorem annotations_parse (content : String) :
    (parse content).annotations =
      ((Text.lines content).takeWhile isComment).filterMap annotation? := by
  rw [parse]
  split
  · split <;> rfl
  · rfl

theorem no_return_body {content : String} (h : '\r' ∉ content.toList) :
    '\r' ∉ (parse content).body.toList := by
  rw [parse]
  split
  · rename_i l rest hlines
    split
    · rw [Text.mem_joinLines (by decide)]
      rintro ⟨line, hline, hc⟩
      refine h (Text.joinLines_lines content ▸ (Text.mem_joinLines (by decide)).2
        ⟨line, List.mem_of_mem_drop (hlines ▸ List.mem_cons_of_mem l hline), hc⟩)
    · exact h
  · exact h

/-- A file with a header is split after the comments and the blank line that they end with. -/
theorem parse_of_lines {content blank : String} {comments rest : List String}
    (h : Text.lines content = comments ++ blank :: rest)
    (hcomments : ∀ l ∈ comments, isComment l = true) (hblank : isBlankLine blank = true)
    (hplain : isComment blank = false) :
    parse content = ⟨comments, Text.joinLines rest, comments.filterMap annotation?⟩ := by
  have htake : (comments ++ blank :: rest).takeWhile isComment = comments := by
    rw [List.takeWhile_append_of_pos hcomments,
      List.takeWhile_cons_of_neg (by rw [hplain]; exact Bool.false_ne_true), List.append_nil]
  simp [parse, h, htake, hblank]

theorem lines_write (top body : String) :
    Text.lines (write top body) = Text.lines top ++ "" :: Text.lines body := by
  have hlist : (write top body).toList = top.toList ++ '\n' :: ([] ++ '\n' :: body.toList) := by
    simp [write]
  rw [Text.lines, hlist, List.splitOn_append_cons_self, List.splitOn_append_cons_self]
  simp [Text.lines]

/-- No line ends in a banner but those it is made of. -/
def Unbroken (s : String) : Prop := '\n' ∉ s.toList ∧ '\r' ∉ s.toList

instance : DecidablePred Unbroken := fun _ => inferInstanceAs (Decidable (_ ∧ _))

theorem unbroken_append {s t : String} : Unbroken (s ++ t) ↔ Unbroken s ∧ Unbroken t := by
  simp only [Unbroken, String.toList_append, List.mem_append, not_or]
  exact and_and_and_comm

theorem unbroken_digits (width n : Nat) : Unbroken (Timestamp.digits width n) := by
  have digit : ∀ c ∈ (Timestamp.digits width n).toList, c.isDigit = true := by
    intro c hc
    simp only [Timestamp.digits, String.toList_ofList, List.mem_append,
      List.mem_replicate] at hc
    rcases hc with ⟨-, rfl⟩ | hc
    · decide
    · exact Nat.isDigit_of_mem_toDigits (b := 10) (by decide) (by decide) hc
  exact ⟨fun h => absurd (digit _ h) (by decide), fun h => absurd (digit _ h) (by decide)⟩

theorem unbroken_text (time : Timestamp) : Unbroken time.text := by
  rw [Timestamp.text]
  cases time.offset with
  | none =>
    simp only [unbroken_append, unbroken_digits, true_and, and_true]
    decide
  | some minutes =>
    simp only [unbroken_append, unbroken_digits, true_and, and_true]
    split <;> decide

/-- A comment that asks for nothing. -/
structure IsRemark (line : String) : Prop where
  comment : isComment line = true
  plain : annotation? line = none

theorem isRemark_of_word {line : String} {c : Char} (hblank : Text.isBlank c = false)
    (hsign : c ≠ '@') (hl : ['/', '/', ' ', c] <+: line.toList) : IsRemark line := by
  obtain ⟨rest, hl⟩ := hl
  have hspace : Text.isBlank ' ' = true := by decide
  exact ⟨by simp [← hl, isComment], by simp [← hl, annotation?, hspace, hblank, hsign]⟩

theorem lines_banner {command : String} (hc : '\n' ∉ command.toList) (time : Timestamp) :
    Text.lines (banner command time) = [
      "// This file was last generated with " ++ command ++ " on " ++ time.text,
      "// DO NOT EDIT! If you need to edit this file, add \"// @" ++ optOut ++
        "\" as the first line."] := by
  have hfirst : '\n' ∉
      ("// This file was last generated with " ++ command ++ " on " ++ time.text).toList := by
    simp [hc, (unbroken_text time).1]
  have hsecond : '\n' ∉ ("// DO NOT EDIT! If you need to edit this file, add \"// @" ++ optOut ++
      "\" as the first line.").toList := by decide
  rw [banner, Text.lines_joinLines (by simp)]
  simp only [List.flatMap_cons, List.flatMap_nil, List.append_nil]
  rw [Text.lines_of_no_break hfirst, Text.lines_of_no_break hsecond]
  rfl

theorem isRemark_of_mem_banner {command : String} (hc : '\n' ∉ command.toList) (time : Timestamp)
    {l : String} (hl : l ∈ Text.lines (banner command time)) : IsRemark l := by
  rw [lines_banner hc, List.mem_cons, List.mem_singleton] at hl
  rcases hl with rfl | rfl
  · refine isRemark_of_word (c := 'T') (by decide) (by decide) ?_
    simp only [String.toList_append, List.append_assoc]
    exact List.IsPrefix.trans (by decide) (List.prefix_append _ _)
  · exact isRemark_of_word (c := 'D') (by decide) (by decide) (by decide)

theorem no_return_banner {command : String} (hc : '\r' ∉ command.toList) (time : Timestamp) :
    '\r' ∉ (banner command time).toList := by
  rw [banner, Text.mem_joinLines (by decide)]
  rintro ⟨l, hl, hmem⟩
  rw [List.mem_cons, List.mem_singleton] at hl
  rcases hl with rfl | rfl
  · have := (unbroken_text time).2
    simp [hc, this] at hmem
  · exact absurd hmem (by decide)

theorem parse_write_under (comments : List String) {command : String}
    (hcomments : ∀ l ∈ comments, isComment l = true ∧ '\n' ∉ l.toList)
    (hcommand : '\n' ∉ command.toList) (time : Timestamp) (body : String) :
    parse (write (Text.joinLines (comments ++ [banner command time])) body) =
      ⟨comments ++ Text.lines (banner command time), body, comments.filterMap annotation?⟩ := by
  have hlines : Text.lines (write (Text.joinLines (comments ++ [banner command time])) body) =
      (comments ++ Text.lines (banner command time)) ++ "" :: Text.lines body := by
    rw [lines_write, Text.lines_joinLines (by simp), List.flatMap_append, List.flatMap_singleton]
    congr 2
    exact Text.flatMap_lines fun l hl => (hcomments l hl).2
  have hheader : ∀ l ∈ comments ++ Text.lines (banner command time), isComment l = true := by
    intro l hl
    rcases List.mem_append.1 hl with hl | hl
    · exact (hcomments l hl).1
    · exact (isRemark_of_mem_banner hcommand time hl).comment
  have hplain : (Text.lines (banner command time)).filterMap annotation? = [] :=
    List.filterMap_eq_nil_iff.2 fun l hl => (isRemark_of_mem_banner hcommand time hl).plain
  rw [parse_of_lines hlines hheader (by decide) (by decide), List.filterMap_append, hplain,
    List.append_nil, Text.joinLines_lines]

/-- What is written below a banner is the body that is read back, and does not opt out. -/
theorem parse_write {command : String} (hc : Unbroken command) (time : Timestamp) (body : String) :
    (parse (write (banner command time) body)).body = body ∧
      (parse (write (banner command time) body)).isFrozen = false := by
  have hparse := parse_write_under [] nofun hc.1 time body
  rw [List.nil_append, Text.joinLines, String.intercalate_singleton] at hparse
  rw [hparse]
  exact ⟨rfl, rfl⟩

theorem unified_write {command : String} (hc : Unbroken command) (time : Timestamp)
    (body : String) : Text.unified (write (banner command time) body) =
      write (banner command time) (Text.unified body) := by
  have head : '\r' ∉ (banner command time ++ "\n\n").toList := by
    simp [no_return_banner hc.2]
  rw [write, Text.unified, String.toList_append, Text.unifyBreaks_append head,
    String.ofList_append, String.ofList_toList]
  rfl

/-- A comment with an at sign, white space aside, and the word that opts out in any letter case.
The word ends where the word characters and hyphens do. -/
def IsMark (line : String) : Prop :=
  ∃ blanks word rest, line.toList = '/' :: '/' :: (blanks ++ '@' :: (word ++ rest)) ∧
    (∀ c ∈ blanks, Text.isBlank c = true) ∧ word.map Char.toLower = optOut.toList ∧
    ∀ c, rest.head? = some c → (Text.isWord c || c == '-') = false

theorem annotation?_eq_some_iff {line name : String} : annotation? line = some name ↔
    ∃ blanks word rest, line.toList = '/' :: '/' :: (blanks ++ '@' :: (word ++ rest)) ∧
      (∀ c ∈ blanks, Text.isBlank c = true) ∧ word ≠ [] ∧
      (∀ c ∈ word, (Text.isWord c || c == '-') = true) ∧
      (∀ c, rest.head? = some c → (Text.isWord c || c == '-') = false) ∧
      String.ofList (Text.lowerChars word) = name := by
  constructor
  · intro h
    rw [annotation?] at h
    split at h
    · rename_i after hline
      split at h
      · rename_i tail htail
        rw [ite_eq_iff] at h
        obtain ⟨-, ⟨⟩⟩ | ⟨hword, h⟩ := h
        refine ⟨after.takeWhile Text.isBlank, tail.takeWhile fun c => Text.isWord c || c == '-',
          tail.dropWhile fun c => Text.isWord c || c == '-', ?_,
          List.all_eq_true.1 List.all_takeWhile, fun hnil => hword (by rw [hnil]; rfl),
          List.all_eq_true.1 List.all_takeWhile, fun c hc => ?_, Option.some.inj h⟩
        · rw [List.takeWhile_append_dropWhile, ← htail, List.takeWhile_append_dropWhile, hline]
        · have := List.head?_dropWhile_not (fun c => Text.isWord c || c == '-') tail
          rwa [hc] at this
      · cases h
    · cases h
  · rintro ⟨blanks, word, rest, hline, hblanks, hne, hword, hrest, rfl⟩
    have hdrop : (blanks ++ '@' :: (word ++ rest)).dropWhile Text.isBlank =
        '@' :: (word ++ rest) := by
      rw [List.dropWhile_append_of_pos hblanks]
      exact List.dropWhile_cons_of_neg (by decide)
    have htake : (word ++ rest).takeWhile (fun c => Text.isWord c || c == '-') = word := by
      rw [List.takeWhile_append_of_pos hword]
      cases rest with
      | nil => rw [List.takeWhile_nil, List.append_nil]
      | cons c tail =>
        rw [List.takeWhile_cons_of_neg (by rw [hrest c rfl]; decide), List.append_nil]
    have hnonempty : word.isEmpty = false := List.isEmpty_eq_false_iff.2 hne
    simp [annotation?, hline, hdrop, htake, hnonempty]

/-- A comment line that opts out, in any letter case and with any white space before the sign. -/
def IsOptOut (line : List Char) : Prop :=
  ∃ blanks word, line = '/' :: '/' :: (blanks ++ '@' :: word) ∧
    (∀ c ∈ blanks, Text.isBlank c = true ∧ c ≠ '\n' ∧ c ≠ '\r') ∧
    word.map Char.toLower = optOut.toList

/-- A file whose first line opts out, ended in any style. What follows need not be text. -/
def OptsOut (content : ByteArray) : Prop :=
  ∃ line, IsOptOut line ∧ (content = (String.ofList line).toByteArray ∨
    ∃ ending ∈ ["\n", "\r", "\r\n"], ∃ rest,
      content = (String.ofList line ++ ending).toByteArray ++ rest)

theorem toLower_mem {c : Char} (h : c.toLower ∈ optOut.toList) :
    c.toNat < 0x80 ∧ (Text.isWord c || c == '-') = true := by
  by_cases hu : c.val ≥ 'A'.val ∧ c.val ≤ 'Z'.val
  · have hupper : c.isUpper = true := decide_eq_true hu
    have hletter : c.isAlphanum = true :=
      Bool.or_eq_true_iff.2 (.inl (Bool.or_eq_true_iff.2 (.inl hupper)))
    have hle : c.toNat ≤ 90 := hu.2
    exact ⟨by omega, by rw [Text.isWord_of_isAlphanum hletter, Bool.true_or]⟩
  · have hlower : c.toLower = c := dif_neg hu
    rw [hlower] at h
    have letters : optOut.toList.all
        (fun a => decide (a.toNat < 0x80) && (a.isAlphanum || a == '-')) = true := rfl
    have hletter := List.all_eq_true.1 letters c h
    rw [Bool.and_eq_true, decide_eq_true_eq, Bool.or_eq_true] at hletter
    exact ⟨hletter.1, Bool.or_eq_true_iff.2 (hletter.2.imp_left Text.isWord_of_isAlphanum)⟩

theorem annotation?_of_isMark {line : String} (h : IsMark line) :
    annotation? line = some optOut := by
  obtain ⟨blanks, word, rest, hline, hblanks, hword, hrest⟩ := h
  have letters : ∀ c ∈ word, c.toNat < 0x80 ∧ (Text.isWord c || c == '-') = true :=
    fun c hc => toLower_mem (hword ▸ List.mem_map_of_mem hc)
  have hlower : Text.lowerChars word = optOut.toList :=
    (Text.lowerFrom_of_ascii (fun c hc => (letters c hc).1) []).trans hword
  refine annotation?_eq_some_iff.2
    ⟨blanks, word, rest, hline, hblanks, ?_, fun c hc => (letters c hc).2, hrest, ?_⟩
  · rintro rfl
    exact absurd hword (by decide)
  · rw [hlower, String.ofList_toList]

theorem isMark_of_isOptOut {line : List Char} (h : IsOptOut line) :
    IsMark (String.ofList line) := by
  obtain ⟨blanks, word, rfl, hblanks, hword⟩ := h
  exact ⟨blanks, word, [], by simp, fun c hc => (hblanks c hc).1, hword, nofun⟩

theorem isComment_of_isOptOut {line : List Char} (h : IsOptOut line) :
    isComment (String.ofList line) = true := by
  obtain ⟨blanks, word, rfl, -, -⟩ := h
  simp [isComment]

theorem no_break_of_isOptOut {line : List Char} (h : IsOptOut line) :
    '\n' ∉ line ∧ '\r' ∉ line := by
  obtain ⟨blanks, word, rfl, hb, hw⟩ := h
  have hword : ∀ c ∈ word, (Text.isWord c || c == '-') = true :=
    fun c hc => (toLower_mem (hw ▸ List.mem_map_of_mem hc)).2
  have absent : ∀ c, c ≠ '/' → c ≠ '@' → (Text.isWord c || c == '-') = false → c ∉ blanks →
      c ∉ '/' :: '/' :: (blanks ++ '@' :: word) := by
    intro c hslash hsign hplain hblank hmem
    simp only [List.mem_cons, List.mem_append, hslash, hsign, hblank, false_or] at hmem
    exact Bool.false_ne_true (hplain.symm.trans (hword c hmem))
  constructor
  · exact absent _ (by decide) (by decide) (by decide) fun hmem => (hb _ hmem).2.1 rfl
  · exact absent _ (by decide) (by decide) (by decide) fun hmem => (hb _ hmem).2.2 rfl

theorem isFrozen_of_first_line {line : List Char} (h : IsOptOut line) {content : String}
    (hl : ∃ rest, Text.lines content = String.ofList line :: rest) :
    (parse content).isFrozen = true := by
  obtain ⟨rest, hl⟩ := hl
  rw [isFrozen, annotations_parse, hl, List.takeWhile_cons_of_pos (isComment_of_isOptOut h),
    List.filterMap_cons_some (annotation?_of_isMark (isMark_of_isOptOut h))]
  simp

theorem isFrozen_of_break {line : List Char} {b : Char} (h : IsOptOut line)
    (hb : b = '\n' ∨ b = '\r') (rest : List Char) :
    (parse (String.ofList (Text.unifyBreaks (line ++ b :: rest)))).isFrozen = true := by
  obtain ⟨hn, hr⟩ := no_break_of_isOptOut h
  obtain ⟨u, hu⟩ : ∃ u, Text.unifyBreaks (b :: rest) = '\n' :: u := by
    rcases hb with rfl | rfl
    · exact ⟨_, rfl⟩
    · exact Text.unifyBreaks_return rest
  rw [Text.unifyBreaks_append hr, hu]
  exact isFrozen_of_first_line h ⟨_, Text.lines_append hn u⟩

/-- A file that opts out in its first line is frozen, if it can be read at all. -/
theorem isFrozen_of_optsOut {content : ByteArray} (h : OptsOut content) {text : String}
    (ht : Text.decodeUtf8 content = .ok text) :
    (parse (String.ofList (Text.unifyBreaks text.toList))).isFrozen = true := by
  obtain ⟨line, hline, hc⟩ := h
  obtain ⟨hn, hr⟩ := no_break_of_isOptOut hline
  have bytes := Text.toByteArray_of_decodeUtf8 ht
  rcases hc with rfl | ⟨ending, hending, rest, rfl⟩
  · rw [String.toByteArray_inj.1 bytes, String.toList_ofList, Text.unifyBreaks_of_no_return hr]
    exact isFrozen_of_first_line hline ⟨_, Text.lines_of_no_break (by rwa [String.toList_ofList])⟩
  · have hpre : line ++ ending.toList <+: text.toList := by
      refine List.isPrefix_of_utf8Encode_append_eq_utf8Encode rest ?_
      rw [← String.toByteArray_ofList, ← String.toByteArray_ofList, String.ofList_toList, bytes,
        String.ofList_append, String.ofList_toList]
    obtain ⟨m, hm⟩ := hpre
    rw [← hm]
    simp only [List.mem_cons, List.not_mem_nil, or_false] at hending
    rcases hending with rfl | rfl | rfl
    · simpa using isFrozen_of_break hline (.inl rfl) m
    · simpa using isFrozen_of_break hline (.inr rfl) m
    · simpa using isFrozen_of_break hline (.inr rfl) ('\n' :: m)

end Header

end HydraClient
