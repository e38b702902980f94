import HydraClient.Imports
import HydraClient.Json.Basic
import HydraClient.OrderedMap
import HydraClient.TypeExpr

/-! # Entries of the type registry -/
namespace HydraClient

inductive TypeKind where
  | builtin
  | alias
  | interface
  | enumeration
  | nativeEnum
  deriving DecidableEq, Repr

namespace TypeKind

def word : TypeKind → String
  | builtin => "builtin"
  | «alias» => "alias"
  | interface => "interface"
  | enumeration => "enum"
  | nativeEnum => "native_enum"

def label (k : TypeKind) : String := "TypeKind." ++ String.ofList (k.word.toList.map Char.toUpper)

def ofWord? (w : String) : Option TypeKind :=
  [builtin, «alias», interface, enumeration, nativeEnum].find? (·.word == w)

end TypeKind

structure Property where
  name : String
  union : TypeUnion := .empty
  required : Bool := false
  readOnly : Bool := false
  isCollection : Bool := false
  elementType : Option String := none
  related : Option String := none
  enumName : Option String := none
  defaultLiteral : Option String := none
  inherited : Bool := false
  imports : Imports := .empty
  schema : OrderedMap String Json := .empty

def isNonempty (s : Option String) : Bool := s.any (· != "")

structure TypeEntry where
  name : String
  kind : TypeKind
  file : Option String := none
  source : Option String := none
  imports : Imports := .empty
  generics : Option String := none
  supers : List String := []
  /-- Whether a factory function is written beside the interface. -/
  hasFactory : Bool := false
  properties : OrderedMap String Property := .empty
  members : OrderedMap String Json := .empty
  aliased : Option String := none
  doc : List String := []
  addressable : Bool := false
  persistent : Bool := false
  generate : Bool := true

namespace TypeEntry

def addImport (t : TypeEntry) (file : Option String) (name : String) : TypeEntry :=
  { t with imports := t.imports.addFrom file name }

/-- The enum that the default of a property names, if it names one. -/
def Property.defaultEnum? (p : Property) : Option String :=
  match p.enumName, p.defaultLiteral with
  | some e, some literal =>
    if e != "" && (e ++ ".").toList.isPrefixOf literal.toList then some e else none
  | _, _ => none

/-- What a property makes its type import. An inherited property is written by the parent, and only
the enum of its default is repeated by the factory of the child. -/
def importsOf (p : Property) : Imports :=
  if p.inherited then
    match Property.defaultEnum? p with
    | some e =>
      let unplaced := if p.imports.unplaced.contains e then NameSet.empty.insert e else .empty
      let start := if p.imports.unplacedFirst then Imports.empty.addUnplaced unplaced else .empty
      (p.imports.toList.foldl (fun i g => if g.2.contains e then i.add g.1 e else i)
        start).addUnplaced unplaced
    | none => .empty
  else (p.imports.toList.foldl (fun i g => if g.2.isEmpty then i else i.addGroup g.1 g.2)
    (Imports.empty.opening p.imports)).addUnplaced p.imports.unplaced

private theorem takes_own {i : Imports} {l : List (String × NameSet)} {f n : String} :
    (l.foldl (fun i g => if g.2.isEmpty then i else i.addGroup g.1 g.2) i).Takes f n ↔
      i.Takes f n ∨ ∃ g ∈ l, g.1 = f ∧ n ∈ g.2.toList := by
  induction l generalizing i with
  | nil => simp
  | cons g t ih =>
    rw [List.foldl_cons, ih]
    by_cases hg : g.2.isEmpty = true
    · have := NameSet.isEmpty_iff.1 hg n
      simp [hg, this]
    · simp only [hg, Bool.false_eq_true, if_false, Imports.takes_addGroup, List.mem_cons,
        exists_eq_or_imp]
      grind

private theorem takes_default {i : Imports} {l : List (String × NameSet)} {e f n : String} :
    (l.foldl (fun i g => if g.2.contains e then i.add g.1 e else i) i).Takes f n ↔
      i.Takes f n ∨ n = e ∧ ∃ g ∈ l, g.1 = f ∧ n ∈ g.2.toList := by
  induction l generalizing i with
  | nil => simp
  | cons g t ih =>
    rw [List.foldl_cons, ih]
    by_cases hg : g.2.contains e = true
    · have := NameSet.contains_iff.1 hg
      simp only [hg, if_true, Imports.takes_add, List.mem_cons, exists_eq_or_imp]
      grind
    · have := fun h => hg (NameSet.contains_iff.2 h)
      simp only [hg, Bool.false_eq_true, if_false, List.mem_cons, exists_eq_or_imp]
      grind

theorem takes_importsOf_own {p : Property} {f n : String} (h : p.inherited = false) :
    (importsOf p).Takes f n ↔ p.imports.Takes f n := by
  simp only [importsOf, h, Bool.false_eq_true, if_false, Imports.takes_addUnplaced, takes_own,
    Imports.takes_opening]
  exact or_iff_right (Imports.not_takes_empty f n)

theorem takes_importsOf_inherited {p : Property} {f n : String} (h : p.inherited = true) :
    (importsOf p).Takes f n ↔ Property.defaultEnum? p = some n ∧ p.imports.Takes f n := by
  simp only [importsOf, h, if_true]
  cases hd : Property.defaultEnum? p with
  | none => simp
  | some e =>
    have hstart : ∀ names : NameSet, ¬(if p.imports.unplacedFirst then
        Imports.empty.addUnplaced names else .empty).Takes f n := by
      intro names
      split <;> simp
    simp only [Imports.takes_addUnplaced, takes_default, hstart, false_or, Option.some.injEq]
    exact and_congr_left fun _ => eq_comm

theorem takes_of_takes_importsOf {p : Property} {f n : String} (h : (importsOf p).Takes f n) :
    p.imports.Takes f n := by
  cases hi : p.inherited with
  | false => exact (takes_importsOf_own hi).1 h
  | true => exact ((takes_importsOf_inherited hi).1 h).2

def addProperty (t : TypeEntry) (p : Property) : TypeEntry :=
  { t with properties := t.properties.insert p.name p, imports := t.imports.merge (importsOf p) }

/-- A name may be reserved without being written. -/
def isRendered (t : TypeEntry) : Bool :=
  t.kind != .builtin && isNonempty t.file && t.generate

/-- The number of other types in the same file that the type refers to. -/
def siblingCount (t : TypeEntry) : Nat :=
  match t.file with
  | some f =>
    if f = "" then 0 else ((t.imports.names f).toList.filter (· != t.name)).length
  | none => 0

end TypeEntry
end HydraClient
