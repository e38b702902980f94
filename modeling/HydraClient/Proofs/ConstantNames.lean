import HydraClient.Proofs.LocaleFamilies
import HydraClient.Proofs.NameLetters

/-! # Names of constants

A constant that is made of a text with a letter or digit has a legal name, and so have its numbered
variants. Of a text without any the empty name is made, which is given once; after that numbers come
behind it, and they are legal again. So the constants of routes have legal names exactly if there is
a letter or digit in the name of every route and of every family.
-/
namespace HydraClient

namespace Text

def isConstantChar (c : Char) : Bool := c.isUpper || c.isDigit || c == '_'

/-- Capitals, digits and underscores, the first of which is no digit. -/
structure IsConstantName (s : String) : Prop where
  first : ∃ c, s.toList.head? = some c ∧ c.isDigit = false
  chars : ∀ c ∈ s.toList, isConstantChar c = true

variable {name s : String} {c : Char}

theorem isConstantName_iff : IsConstantName s ↔
    (s.toList.head?.any (!·.isDigit) && s.toList.all isConstantChar) = true := by
  rw [Bool.and_eq_true, List.all_eq_true, Option.any_eq_true]
  simp only [Bool.not_eq_true']
  exact ⟨fun h => ⟨h.first, h.chars⟩, fun h => ⟨h.1, h.2⟩⟩

instance (s : String) : Decidable (IsConstantName s) := decidable_of_iff _ isConstantName_iff.symm

theorem IsConstantName.ne_empty (h : IsConstantName s) : s ≠ "" := by
  rintro rfl
  obtain ⟨c, hc, -⟩ := h.first
  cases hc

theorem isConstantChar_of_isNameChar (h : isNameChar c = true) :
    isConstantChar c.toLower.toUpper = true :=
  of_isNameChar (P := fun c => isConstantChar c.toLower.toUpper) h (by decide +kernel)

def capitals (name : String) : List Char :=
  (snakeChars name.toList).map fun c => c.toLower.toUpper

/-- What hides a digit at the start of a constant. -/
def digitCover : List Char := ['C', 'O', 'M', 'P', 'A', 'T', '_']

theorem toList_constantName (name : String) : (constantName name).toList =
    if (capitals name).head?.any Char.isDigit then digitCover ++ capitals name
    else capitals name := by
  have hcapitals : (snakeCase name).toList.map Char.toUpper = capitals name := by
    rw [toList_snakeCase, List.map_map]
    rfl
  rw [constantName, hcapitals]
  split
  · rw [String.toList_append, String.toList_ofList, String.toList_ofList]
    rfl
  · rw [String.toList_ofList]

theorem isConstantChar_of_mem_capitals (h : c ∈ capitals name) : isConstantChar c = true := by
  obtain ⟨d, hd, rfl⟩ := List.mem_map.1 h
  rcases mem_snakeChars hd with hd | rfl
  · exact isConstantChar_of_isNameChar hd
  · decide

theorem constantName_of_not_lettered (h : ¬Lettered name) : constantName name = "" := by
  have hnone : capitals name = [] := by
    rw [capitals, snakeChars_eq_nil_iff.2 (not_not.1 h), List.map_nil]
  rw [← String.toList_inj, toList_constantName, hnone]
  rfl

theorem isConstantName_constantName (h : Lettered name) : IsConstantName (constantName name) := by
  obtain ⟨c, rest, hcapitals⟩ : ∃ c rest, capitals name = c :: rest := by
    refine List.exists_cons_of_ne_nil fun hnone => h ?_
    exact snakeChars_eq_nil_iff.1 (List.map_eq_nil_iff.1 hnone)
  have hchars : ∀ d ∈ capitals name, isConstantChar d = true := fun d =>
    isConstantChar_of_mem_capitals
  have hlist := toList_constantName name
  split at hlist
  · have hcover : digitCover.all isConstantChar = true := by decide
    constructor <;> rw [hlist]
    · exact ⟨'C', rfl, by decide⟩
    · exact List.forall_mem_append.2 ⟨List.all_eq_true.1 hcover, hchars⟩
  · rename_i hdigit
    constructor <;> rw [hlist]
    · rw [hcapitals] at hdigit ⊢
      exact ⟨c, rfl, by simpa using hdigit⟩
    · exact hchars

/-- A name is made of exactly the texts with a letter or digit. -/
theorem constantName_eq_empty_iff : constantName name = "" ↔ ¬Lettered name :=
  ⟨fun hempty h => (isConstantName_constantName h).ne_empty hempty, constantName_of_not_lettered⟩

end Text

namespace Routes

open Metadata (Config Route)
open Text (IsConstantName Lettered isConstantChar)

section Given

variable {used constants : List String} {constant n : String}

theorem isConstantName_numbered (h : constant ≠ "" → IsConstantName constant) (k : Nat) :
    IsConstantName (numbered constant k) := by
  have hnumber : ∀ c ∈ (toString k).toList, isConstantChar c = true := by
    intro c hc
    have hdigit : c ∈ Nat.toDigits 10 k := by
      rwa [Nat.toString_eq_ofList_toDigits, String.toList_ofList] at hc
    simp [isConstantChar, Nat.isDigit_of_mem_toDigits (by decide) (by decide) hdigit]
  have hconstant : ∀ c ∈ constant.toList, isConstantChar c = true := by
    by_cases hempty : constant = ""
    · rw [hempty]
      nofun
    · exact (h hempty).chars
  constructor
  · by_cases hempty : constant = ""
    · exact ⟨'_', by simp [numbered, hempty], by decide⟩
    · obtain ⟨c, hc, hdigit⟩ := (h hempty).first
      exact ⟨c, by simp [numbered, hc], hdigit⟩
  · intro c hc
    simp only [numbered, String.toList_append, List.mem_append] at hc
    rcases hc with (hc | hc) | hc
    · exact hconstant c hc
    · obtain rfl := List.mem_singleton.1 hc
      decide
    · exact hnumber c hc

/-- A legal name is given as a legal one, and the empty name as itself or as a legal one. -/
theorem Chosen.isConstantName (h : Chosen used constant n)
    (hc : constant ≠ "" → IsConstantName constant) :
    IsConstantName n ∨ n = "" ∧ constant = "" := by
  cases h with
  | plain _ =>
    by_cases hempty : constant = ""
    · exact .inr ⟨hempty, hempty⟩
    · exact .inl (hc hempty)
  | numbered k _ _ _ _ => exact .inl (isConstantName_numbered hc k)

theorem isConstantName_assign (hc : ∀ w ∈ constants, w ≠ "" → IsConstantName w) :
    ∀ n ∈ assign used constants, IsConstantName n ∨ n = "" := by
  induction constants generalizing used with
  | nil => nofun
  | cons w rest ih =>
    obtain ⟨hw, hrest⟩ := List.forall_mem_cons.1 hc
    rw [assign, List.forall_mem_cons]
    exact ⟨((chosen_uniqueName used w).isConstantName hw).imp_right And.left, ih hrest⟩

theorem isConstantName_assign_iff (hused : "" ∉ used)
    (hc : ∀ w ∈ constants, w ≠ "" → IsConstantName w) :
    (∀ n ∈ assign used constants, IsConstantName n) ↔ "" ∉ constants := by
  induction constants generalizing used with
  | nil => simp [assign]
  | cons w rest ih =>
    obtain ⟨hw, hrest⟩ := List.forall_mem_cons.1 hc
    rw [assign, List.forall_mem_cons, List.mem_cons, not_or]
    by_cases hempty : w = ""
    · -- The empty name is still free, so it is given.
      have hgiven : uniqueName used w = "" := by
        rw [hempty]
        exact (chosen_iff.1 (.plain hused)).symm
      rw [hgiven]
      exact iff_of_false (fun h => h.1.ne_empty rfl) fun h => h.1 hempty.symm
    · have hgiven : IsConstantName (uniqueName used w) :=
        ((chosen_uniqueName used w).isConstantName hw).resolve_right fun h => hempty h.2
      have hused' : "" ∉ uniqueName used w :: used := by
        rw [List.mem_cons, not_or]
        exact ⟨hgiven.ne_empty.symm, hused⟩
      rw [ih hused' hrest]
      exact and_congr (iff_of_true hgiven (Ne.symm hempty)) Iff.rfl

end Given

def declared? (line : String) : Option String :=
  (line.toList.dropPrefix? "export const ".toList).map fun s =>
    String.ofList (s.takeWhile (· != ':'))

theorem declared?_text {c : Constant} (h : ':' ∉ c.name.toList) :
    declared? c.text = some c.name := by
  obtain ⟨rest, hrest⟩ : ∃ rest, c.text.toList =
      "export const ".toList ++ (c.name.toList ++ ':' :: rest) := by
    have hcolon : ": ".toList = ':' :: " ".toList := by decide
    unfold Constant.text
    simp only [String.toList_append, List.append_assoc, hcolon, List.cons_append]
    exact ⟨_, rfl⟩
  have hstop : ∀ d ∈ c.name.toList, (d != ':') = true := by
    intro d hd
    rw [bne_iff_ne]
    rintro rfl
    exact h hd
  have hname : (c.name.toList ++ ':' :: rest).takeWhile (· != ':') = c.name.toList := by
    rw [List.takeWhile_append_of_pos hstop, List.takeWhile_cons_of_neg (by decide),
      List.append_nil]
  rw [declared?, hrest, List.dropPrefix?_append_of_beq _ (beq_self_eq_true _), Option.map_some,
    hname, String.ofList_toList]

/-- What constants are made of: the names of the routes and those of the families. -/
def titles (config : Config) (routes : List Route) : List String :=
  (unreserved config routes).map (·.name) ++ bases ((unreserved config routes).map unhooked)

section Constants

variable {config : Config} {routes : List Route}

theorem wanted_requests :
    (requests config ((unreserved config routes).map unhooked)).map (·.wanted) =
      (titles config routes).map Text.constantName := by
  have hroute (r : Route) : (routeRequest (unhooked r)).wanted = Text.constantName r.name := by
    rw [routeRequest, unhooked]
  have hfamily (e : String × Family) :
      (familyRequest config.defaultLocale e).wanted = Text.constantName e.1 := by
    rw [familyRequest]
  simp only [requests, accepted_unhooked, titles, List.map_append, ← keys_familiesOf,
    OrderedMap.keys, List.map_map, Function.comp_def, hroute, hfamily]

theorem lettered_titles_iff : (∀ s ∈ titles config routes, Lettered s) ↔
    ∀ r ∈ unreserved config routes, Lettered r.name ∧
      ∀ base locale, family? r = some (base, locale) → Lettered base := by
  have hbases : ∀ base, base ∈ bases ((unreserved config routes).map unhooked) ↔
      ∃ r ∈ unreserved config routes, ∃ locale, family? r = some (base, locale) := by
    intro base
    simp [bases, List.mem_eraseDups, Visit.family?, unhooked]
  rw [titles, List.forall_mem_append, List.forall_mem_map]
  constructor
  · rintro ⟨hnames, hfamilies⟩ r hr
    exact ⟨hnames r hr, fun base locale hfamily =>
      hfamilies base ((hbases base).2 ⟨r, hr, locale, hfamily⟩)⟩
  · intro h
    refine ⟨fun r hr => (h r hr).1, fun base hbase => ?_⟩
    obtain ⟨r, hr, locale, hfamily⟩ := (hbases base).1 hbase
    exact (h r hr).2 base locale hfamily

end Constants

/-- Every constant has a legal name or the empty one, and all names are legal exactly if that of
every route and of every family has a letter or digit. -/
theorem constants_legal_iff (config : Config) (routes : List Route) {lines : List String}
    (h : compose config id routes = .ok lines) :
    ∃ names : List String, lines.map declared? = names.map some ∧
      (∀ n ∈ names, IsConstantName n ∨ n = "") ∧
      ((∀ n ∈ names, IsConstantName n) ↔
        ∀ r ∈ unreserved config routes, Lettered r.name ∧
          ∀ base locale, family? r = some (base, locale) → Lettered base) := by
  rw [compose_eq] at h
  obtain ⟨cs, hgrant, rfl⟩ := exists_of_map_ok h
  have hnames := (granted_of_grant hgrant).names
  rw [wanted_requests] at hnames
  have hwanted : ∀ w ∈ (titles config routes).map Text.constantName, w ≠ "" →
      IsConstantName w := by
    rw [List.forall_mem_map]
    intro s _ hempty
    exact Text.isConstantName_constantName
      (not_not.1 fun hs => hempty (Text.constantName_eq_empty_iff.2 hs))
  have hgiven : ∀ n ∈ assign [] ((titles config routes).map Text.constantName),
      IsConstantName n ∨ n = "" := isConstantName_assign hwanted
  refine ⟨cs.map (·.name), ?_, hnames ▸ hgiven, ?_⟩
  · rw [List.map_map, List.map_map]
    refine List.map_congr_left fun c hc => declared?_text fun hcolon => ?_
    rcases hgiven c.name (hnames ▸ List.mem_map_of_mem hc) with hlegal | hempty
    · exact absurd (hlegal.chars ':' hcolon) (by decide)
    · rw [hempty] at hcolon
      cases hcolon
  · rw [hnames, isConstantName_assign_iff List.not_mem_nil hwanted, ← lettered_titles_iff]
    simp only [List.mem_map, Text.constantName_eq_empty_iff, not_exists, not_and, not_not]

def missing : List Route :=
  [{ name := "404", path := "/404" }, { name := "compat.404", path := "/gone" }]

theorem missing_is_legal : ∃ (lines names : List String), compose {} id missing = .ok lines ∧
    lines.map declared? = names.map some ∧ names = ["COMPAT_404", "COMPAT_404_2"] ∧
    ∀ n ∈ names, IsConstantName n := by
  have hcompose : compose {} id missing = .ok [
      "export const COMPAT_404: RouteInterface = \x7b\"name\": \"404\", \"path\": \"/404\", " ++
        "\"vars\": \x7b\x7d, \"defaults\": \x7b\x7d, \"meta\": \x7b\x7d\x7d;",
      "export const COMPAT_404_2: RouteInterface = \x7b\"name\": \"compat.404\", " ++
        "\"path\": \"/gone\", \"vars\": \x7b\x7d, \"defaults\": \x7b\x7d, " ++
        "\"meta\": \x7b\x7d\x7d;"] := by
    decide +kernel
  obtain ⟨names, hnames, -, hlegal⟩ := constants_legal_iff {} missing hcompose
  have hall : ∀ r ∈ unreserved {} missing, Lettered r.name ∧ family? r = none := by decide +kernel
  refine ⟨_, names, hcompose, hnames, ?_, hlegal.2 fun r hr => ?_⟩
  · refine List.map_injective_iff.2 (Option.some_injective _) (hnames.symm.trans ?_)
    decide +kernel
  · obtain ⟨hname, hnone⟩ := hall r hr
    refine ⟨hname, fun base locale hfamily => ?_⟩
    rw [hnone] at hfamily
    cases hfamily

/-- A route whose name has no letter of ASCII. -/
def japan : Route where
  name := "日本"
  path := "/jp"

/-- A constant without a name is declared. -/
theorem japan_is_nameless : japan.name ≠ "" ∧ ∃ line, compose {} id [japan] = .ok [line] ∧
    declared? line = some "" ∧ ¬IsConstantName "" := by
  refine ⟨by decide, "export const : RouteInterface = \x7b\"name\": \"日本\", \"path\": \"/jp\", " ++
    "\"vars\": \x7b\x7d, \"defaults\": \x7b\x7d, \"meta\": \x7b\x7d\x7d;", ?_⟩
  decide +kernel

end Routes
end HydraClient
