import HydraClient.Proofs.Headers
import HydraClient.Proofs.PropertyKeys
import HydraClient.Proofs.ScriptNames
import HydraClient.Render.Types

/-! # Interfaces that are read back

The line of a property says whether it is read-only, its name, whether it is required and its type,
and all four are read back from it. In the text of an interface every property that is not inherited
has a line of its own, unless its name ends in a line feed and stands bare.
-/
namespace HydraClient

namespace Text

variable {s : String} {ls : List String}

theorem length_lines_pos (s : String) : 0 < (lines s).length := by
  rw [lines, List.length_map]
  exact List.length_pos_of_ne_nil (List.splitOn_ne_nil _ _)

theorem length_lines_eq_one_iff : (lines s).length = 1 ↔ '\n' ∉ s.toList := by
  refine ⟨fun h => ?_, fun h => by rw [lines_of_no_break h, List.length_singleton]⟩
  rw [lines, List.length_map] at h
  obtain ⟨cs, hcs⟩ := List.length_eq_one_iff.1 h
  have hs : s.toList = cs := by
    have hjoin : ['\n'].intercalate (s.toList.splitOn '\n') = s.toList :=
      List.intercalate_splitOn '\n'
    rw [hcs] at hjoin
    simpa using hjoin.symm
  exact hs ▸ not_mem_of_mem_splitOn (hcs ▸ List.mem_singleton_self cs)

theorem length_le_flatMap_lines (ls : List String) : ls.length ≤ (ls.flatMap lines).length := by
  induction ls with
  | nil => exact le_rfl
  | cons l rest ih =>
    have hl := length_lines_pos l
    rw [List.flatMap_cons, List.length_append, List.length_cons]
    omega

theorem length_flatMap_lines_iff :
    (ls.flatMap lines).length = ls.length ↔ ∀ l ∈ ls, '\n' ∉ l.toList := by
  induction ls with
  | nil => simp
  | cons l rest ih =>
    have hl := length_lines_pos l
    have hrest := length_le_flatMap_lines rest
    rw [List.forall_mem_cons, ← ih, ← length_lines_eq_one_iff, List.flatMap_cons,
      List.length_append, List.length_cons]
    omega

end Text

namespace Render

open Script (endsKey propertyKey EndsLine)

structure FieldLine where
  readOnly : Bool
  name : String
  required : Bool
  type : String
  deriving DecidableEq

namespace FieldLine

def of (p : Property) : FieldLine := ⟨p.readOnly, p.name, p.required, p.union.render⟩

def indentation : List Char := [' ', ' ', ' ', ' ']

def readOnlyMark : List Char := ['r', 'e', 'a', 'd', 'o', 'n', 'l', 'y', ' ']

def readMark (mark s : List Char) : Bool × List Char :=
  match s.dropPrefix? mark with
  | some rest => (true, rest)
  | none => (false, s)

def read? (line : String) : Option FieldLine := do
  let s ← line.toList.dropPrefix? indentation
  let (readOnly, s) := readMark readOnlyMark s
  let (name, s) ← Script.readKey? s
  let (optional, s) := readMark ['?'] s
  let s ← s.dropPrefix? [':', ' ']
  let type ← s.dropSuffix? [';']
  pure ⟨readOnly, name, !optional, String.ofList type⟩

variable {mark s : List Char} {name : String} {c : Char} {p : Property}

theorem readMark_append (mark s : List Char) : readMark mark (mark ++ s) = (true, s) := by
  rw [readMark, List.dropPrefix?_append_of_beq _ (beq_self_eq_true mark)]

theorem readMark_of_not_prefix (h : ¬mark <+: s) : readMark mark s = (false, s) := by
  rw [readMark, dropPrefix?_eq_none h]

theorem readMark_ite (present : Bool) (h : ¬mark <+: s) :
    readMark mark ((if present then mark else []) ++ s) = (present, s) := by
  cases present with
  | true => exact readMark_append mark s
  | false => exact readMark_of_not_prefix h

theorem not_startsWith_readOnlyMark (hc : endsKey c = true) (rest : List Char) :
    ¬readOnlyMark <+: (propertyKey name).toList ++ c :: rest := by
  intro h
  unfold propertyKey at h
  split at h
  · rename_i hname
    obtain ⟨d, more, hlist, -, hchars⟩ := Script.of_isIdentifier hname
    rw [List.append_cons] at h
    rcases List.prefix_or_prefix_of_prefix h (List.prefix_append _ _) with h | h
    · have hblank : ' ' ∈ name.toList ++ [c] := h.subset (by decide)
      rcases List.mem_append.1 hblank with hblank | hblank
      · rcases hchars ' ' (hlist ▸ hblank) with hblank | hblank <;> exact absurd hblank (by decide)
      · rw [← List.mem_singleton.1 hblank] at hc
        exact absurd hc (by decide)
    · have hgoesOn : readOnlyMark.all (!endsKey ·) = true := by decide
      have hmem : c ∈ readOnlyMark := h.subset (List.mem_append_right _ (List.mem_singleton_self c))
      have hmore := List.all_eq_true.1 hgoesOn c hmem
      rw [hc] at hmore
      cases hmore
  · rw [Json.toList_quote, List.cons_append] at h
    exact absurd (List.cons_prefix_cons.1 h).1 (by decide)

theorem toList_propertyLine (p : Property) : (propertyLine p).toList =
    indentation ++ ((if p.readOnly then readOnlyMark else []) ++ ((propertyKey p.name).toList ++
      ((if p.required then [] else ['?']) ++ ([':', ' '] ++
        (p.union.render.toList ++ [';']))))) := by
  have hreadOnly : (if p.readOnly then "readonly " else "").toList =
      if p.readOnly then readOnlyMark else [] := by
    cases p.readOnly <;> rfl
  have hrequired : (if p.required then "" else "?").toList = if p.required then [] else ['?'] := by
    cases p.required <;> rfl
  simp only [propertyLine, String.toList_append, hreadOnly, hrequired, List.append_assoc]
  rfl

theorem read?_propertyLine (p : Property) : read? (propertyLine p) = some (of p) := by
  obtain ⟨c, rest, htail, hc⟩ : ∃ c rest, (if p.required then [] else ['?']) ++
      ([':', ' '] ++ (p.union.render.toList ++ [';'])) = c :: rest ∧ endsKey c = true := by
    cases p.required <;> exact ⟨_, _, rfl, by decide⟩
  have hoptional : readMark ['?'] (c :: rest) =
      (!p.required, [':', ' '] ++ (p.union.render.toList ++ [';'])) := by
    rw [← htail]
    cases p.required with
    | true => exact readMark_of_not_prefix fun h => absurd (List.cons_prefix_cons.1 h).1 (by decide)
    | false => exact readMark_append _ _
  have htype : (p.union.render.toList ++ [';']).dropSuffix? [';'] = some p.union.render.toList :=
    List.dropSuffix?_eq_some_iff.2 ⟨[';'], rfl, beq_self_eq_true _⟩
  rw [read?, toList_propertyLine, htail,
    List.dropPrefix?_append_of_beq _ (beq_self_eq_true indentation)]
  simp only [Option.bind_eq_bind, Option.bind_some, Option.pure_def,
    readMark_ite p.readOnly (not_startsWith_readOnlyMark hc rest), Script.readKey?_propertyKey hc,
    hoptional, List.dropPrefix?_append_of_beq _ (beq_self_eq_true [':', ' ']), htype,
    Bool.not_not, String.ofList_toList]
  rfl

end FieldLine

section Interfaces

variable {t : TypeEntry} {p : Property}

def shown (t : TypeEntry) : List Property := t.properties.values.filter (!·.inherited)

def opening (t : TypeEntry) : String :=
  let supers := if t.supers.isEmpty then "" else " extends " ++ String.intercalate ", " t.supers
  "export interface " ++ t.name ++ generics t ++ supers ++ " \x7b"

theorem interfaceLines_eq (t : TypeEntry) : interfaceLines t =
    commentLines t.doc ++ [opening t] ++ (shown t).map propertyLine ++ ["\x7d"] := rfl

def fieldText (t : TypeEntry) : List String := ((shown t).map propertyLine).flatMap Text.lines

theorem break_mem_propertyLine_iff (h : '\n' ∉ p.union.render.toList) :
    '\n' ∈ (propertyLine p).toList ↔ EndsLine p.name := by
  have hindentation : '\n' ∉ FieldLine.indentation := by decide
  have hreadOnly : '\n' ∉ if p.readOnly then FieldLine.readOnlyMark else [] := by
    cases p.readOnly <;> decide
  have hrequired : '\n' ∉ if p.required then [] else ['?'] := by
    cases p.required <;> decide
  rw [FieldLine.toList_propertyLine, ← Script.break_mem_propertyKey_iff]
  simp [hindentation, hreadOnly, hrequired, h]

/-- The shown properties have one line each, and it is read back, unless a name ends its line. -/
theorem read?_fieldText_iff (h : ∀ p ∈ shown t, '\n' ∉ p.union.render.toList) :
    (fieldText t).map FieldLine.read? = (shown t).map (some ∘ FieldLine.of) ↔
      ∀ p ∈ shown t, ¬EndsLine p.name := by
  have hbroken : (∀ l ∈ (shown t).map propertyLine, '\n' ∉ l.toList) ↔
      ∀ p ∈ shown t, ¬EndsLine p.name := by
    rw [List.forall_mem_map]
    exact forall₂_congr fun p hp => not_congr (break_mem_propertyLine_iff (h p hp))
  rw [← hbroken]
  constructor
  · intro hread
    have hlength := congrArg List.length hread
    rw [List.length_map, List.length_map, ← List.length_map propertyLine] at hlength
    exact Text.length_flatMap_lines_iff.1 hlength
  · intro hlines
    rw [fieldText, Text.flatMap_lines hlines, List.map_map]
    exact List.map_congr_left fun p _ => FieldLine.read?_propertyLine p

/-- The text of an interface has a line for every shown property, in order, and it is read back as
what it says, exactly if no shown name ends its line. No two names have the same key. -/
theorem interface_read_back (r : TypeRegistry) (hkind : t.kind = .interface)
    (htypes : ∀ p ∈ shown t, '\n' ∉ p.union.render.toList) :
    (∃ lines, typeLines r t = .ok lines ∧ Text.lines (Text.joinLines lines) =
      (commentLines t.doc ++ [opening t]).flatMap Text.lines ++ fieldText t ++ "\x7d" ::
        (if t.hasFactory then factoryLines r t else []).flatMap Text.lines) ∧
    ((fieldText t).map FieldLine.read? = (shown t).map (some ∘ FieldLine.of) ↔
      ∀ p ∈ shown t, ¬EndsLine p.name) ∧
    Function.Injective propertyKey := by
  refine ⟨⟨_, by rw [typeLines, hkind], ?_⟩, read?_fieldText_iff htypes,
    Script.propertyKey_injective⟩
  have hclosing : Text.lines "\x7d" = ["\x7d"] := Text.lines_of_no_break (by decide)
  rw [Text.lines_joinLines (by simp [interfaceLines_eq]), interfaceLines_eq]
  simp only [List.flatMap_append, List.flatMap_cons, List.flatMap_nil, hclosing, fieldText,
    List.append_assoc, List.append_nil, List.singleton_append]

/-- A post with a key in quotes, one that looks like a mark and one whose name may end its line. -/
def postWith (last : String) : TypeEntry where
  name := "Post"
  kind := .interface
  properties := .ofList
    [("@id", { name := "@id", union := .parse "string", readOnly := true }),
      ("readonly", { name := "readonly", union := .parse "boolean|null" }),
      (last, { name := last, union := .parse "string", required := true })]

theorem title_is_read : (postWith "title").kind = .interface ∧
    fieldText (postWith "title") =
      ["    readonly \"@id\"?: string;", "    readonly?: boolean|null;", "    title: string;"] ∧
    (fieldText (postWith "title")).map FieldLine.read? =
      [some ⟨true, "@id", false, "string"⟩, some ⟨false, "readonly", false, "boolean|null"⟩,
        some ⟨false, "title", true, "string"⟩] := by
  have hunbroken : ∀ p ∈ shown (postWith "title"), '\n' ∉ p.union.render.toList := by
    decide +kernel
  obtain ⟨-, hread, -⟩ := interface_read_back {} (t := postWith "title") rfl hunbroken
  refine ⟨rfl, by decide +kernel, (hread.2 ?_).trans ?_⟩
  · decide +kernel
  · decide +kernel

/-- A name that ends in a line feed takes two lines, neither of which is that of a property. -/
theorem title_ends_line :
    (∀ p ∈ shown (postWith "title\n"), '\n' ∉ p.union.render.toList) ∧
    (shown (postWith "title\n")).length = 3 ∧
    (typeLines {} (postWith "title\n")).map (Text.lines ∘ Text.joinLines) =
      .ok ["export interface Post \x7b", "    readonly \"@id\"?: string;",
        "    readonly?: boolean|null;", "    title", ": string;", "\x7d"] ∧
    FieldLine.read? "    title" = none ∧ FieldLine.read? ": string;" = none := by
  decide +kernel

end Interfaces

end Render
end HydraClient
