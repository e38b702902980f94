/-! # Recorded imports

Which names a piece of text takes from which file. Files and the names under a file are kept
strictly ascending, so that equal imports are equal values. A file may stand with no name at all.

A name may also be recorded without a file. No text can take it from anywhere, which is found out
only when the text is put together.
-/
namespace HydraClient

structure NameSet where
  toList : List String := []
  sorted : toList.Pairwise (· < ·) := by simp
  deriving DecidableEq, Repr

namespace NameSet

private theorem lt_or_gt_of_ne {a b : String} (h : a ≠ b) : a < b ∨ b < a := by
  by_cases hl : a < b
  · exact .inl hl
  · refine .inr ?_
    by_cases hg : b < a
    · exact hg
    · exact absurd (String.le_antisymm (String.not_lt.1 hg) (String.not_lt.1 hl)) h

instance : Inhabited NameSet := ⟨{}⟩

def empty : NameSet := {}

def place (n : String) : List String → List String
  | [] => [n]
  | m :: rest => if n < m then n :: m :: rest else if m < n then m :: place n rest else m :: rest

theorem mem_place {n a : String} {l : List String} : a ∈ place n l ↔ a = n ∨ a ∈ l := by
  induction l with
  | nil => simp [place]
  | cons m t ih =>
    unfold place
    split
    · simp
    · split
      · simp [ih, or_left_comm]
      · rename_i h₁ h₂
        have : n = m := by
          by_cases e : n = m
          · exact e
          · exact (lt_or_gt_of_ne e).elim (absurd · h₁) (absurd · h₂)
        subst this
        simp

theorem sorted_place {n : String} {l : List String} (h : l.Pairwise (· < ·)) :
    (place n l).Pairwise (· < ·) := by
  induction l with
  | nil => simp [place]
  | cons m t ih =>
    obtain ⟨hm, ht⟩ := List.pairwise_cons.1 h
    unfold place
    split
    · rename_i hn
      refine List.pairwise_cons.2 ⟨fun a ha => ?_, h⟩
      rcases List.mem_cons.1 ha with rfl | ha
      · exact hn
      · exact String.lt_trans hn (hm a ha)
    · split
      · rename_i hn
        refine List.pairwise_cons.2 ⟨fun a ha => ?_, ih ht⟩
        rcases mem_place.1 ha with rfl | ha
        · exact hn
        · exact hm a ha
      · exact h

def insert (s : NameSet) (n : String) : NameSet := ⟨place n s.toList, sorted_place s.sorted⟩

def contains (s : NameSet) (n : String) : Bool := s.toList.contains n

def union (s t : NameSet) : NameSet := t.toList.foldl insert s

def ofList (names : List String) : NameSet := names.foldl insert empty

def isEmpty (s : NameSet) : Bool := s.toList.isEmpty

def size (s : NameSet) : Nat := s.toList.length

theorem mem_insert {s : NameSet} {n a : String} :
    a ∈ (s.insert n).toList ↔ a = n ∨ a ∈ s.toList := mem_place

@[simp] theorem not_mem_empty (a : String) : a ∉ empty.toList := by
  simp [empty]

theorem isEmpty_iff {s : NameSet} : s.isEmpty = true ↔ ∀ a, a ∉ s.toList := by
  rw [isEmpty, List.isEmpty_iff, List.eq_nil_iff_forall_not_mem]

theorem contains_iff {s : NameSet} {a : String} : s.contains a = true ↔ a ∈ s.toList := by
  simp [contains]

theorem mem_union {s t : NameSet} {a : String} :
    a ∈ (s.union t).toList ↔ a ∈ s.toList ∨ a ∈ t.toList := by
  unfold union
  generalize t.toList = l
  induction l generalizing s with
  | nil => simp
  | cons n r ih => simp [ih, mem_insert, or_comm, or_assoc, or_left_comm]

end NameSet

structure Imports where
  toList : List (String × NameSet) := []
  sorted : (toList.map Prod.fst).Pairwise (· < ·) := by simp
  /-- Names without a file. -/
  unplaced : NameSet := .empty
  /-- Whether a name without a file was recorded before any file. -/
  unplacedFirst : Bool := false
  deriving DecidableEq, Repr

namespace Imports

instance : Inhabited Imports := ⟨{}⟩

def empty : Imports := {}

def files (i : Imports) : List String := i.toList.map Prod.fst

def names (i : Imports) (file : String) : NameSet :=
  ((i.toList.find? (·.1 == file)).map Prod.snd).getD .empty

/-- Joins names into the group of a file, in an ascending list of groups. -/
def join (file : String) (names : NameSet) :
    List (String × NameSet) → List (String × NameSet)
  | [] => [(file, names)]
  | g :: rest =>
    if file < g.1 then (file, names) :: g :: rest
    else if g.1 < file then g :: join file names rest
    else (g.1, g.2.union names) :: rest

theorem fst_join (file : String) (names : NameSet) (l : List (String × NameSet)) :
    (join file names l).map Prod.fst = NameSet.place file (l.map Prod.fst) := by
  induction l with
  | nil => rfl
  | cons g t ih =>
    simp only [join, List.map_cons, NameSet.place]
    split
    · rfl
    · split
      · simp [ih]
      · rfl

def addGroup (i : Imports) (file : String) (names : NameSet) : Imports :=
  { i with
    toList := join file names i.toList
    sorted := by rw [fst_join]; exact NameSet.sorted_place i.sorted }

def add (i : Imports) (file name : String) : Imports :=
  i.addGroup file (NameSet.empty.insert name)

/-- Records names without a file. -/
def addUnplaced (i : Imports) (names : NameSet) : Imports :=
  if names.isEmpty then i
  else { i with
    unplaced := i.unplaced.union names
    unplacedFirst := i.unplacedFirst || (i.toList.isEmpty && i.unplaced.isEmpty) }

def addFrom (i : Imports) (file : Option String) (name : String) : Imports :=
  match file with
  | some f => i.add f name
  | none => i.addUnplaced (NameSet.empty.insert name)

/-- Imports that others are to be recorded in, with the names that come before all files. -/
def opening (i j : Imports) : Imports := if j.unplacedFirst then i.addUnplaced j.unplaced else i

/-- Records what stands in other imports as well, in the order in which it was recorded there. -/
def merge (i j : Imports) : Imports :=
  (j.toList.foldl (fun k g => k.addGroup g.1 g.2) (i.opening j)).addUnplaced j.unplaced

/-- Where names without a file stand among the files. -/
inductive Unplaced where
  | alone
  | first
  | later
  deriving DecidableEq, Repr

def unplaced? (i : Imports) : Option Unplaced :=
  if i.unplaced.isEmpty then none
  else if i.toList.isEmpty then some .alone
  else if i.unplacedFirst then some .first
  else some .later

def ofList (groups : List (String × List String)) : Imports :=
  groups.foldl (fun i g => i.addGroup g.1 (.ofList g.2)) empty

def Takes (i : Imports) (file name : String) : Prop :=
  ∃ g ∈ i.toList, g.1 = file ∧ name ∈ g.2.toList

instance (i : Imports) (file name : String) : Decidable (i.Takes file name) :=
  inferInstanceAs (Decidable (∃ g ∈ i.toList, g.1 = file ∧ name ∈ g.2.toList))

@[simp] theorem not_takes_empty (file name : String) : ¬empty.Takes file name := by
  simp [Takes, empty]

private theorem takes_join {file name k : String} {names : NameSet} {l : List (String × NameSet)} :
    (∃ g ∈ join file names l, g.1 = k ∧ name ∈ g.2.toList) ↔
      (k = file ∧ name ∈ names.toList) ∨ ∃ g ∈ l, g.1 = k ∧ name ∈ g.2.toList := by
  induction l with
  | nil => simp [join, eq_comm]
  | cons g t ih =>
    unfold join
    split
    · simp [eq_comm]
    · split
      · simp only [List.mem_cons, exists_eq_or_imp, ih]
        exact or_left_comm
      · rename_i h₁ h₂
        have : file = g.1 := Decidable.byContradiction fun e =>
          (NameSet.lt_or_gt_of_ne e).elim h₁ h₂
        subst this
        simp only [List.mem_cons, exists_eq_or_imp, NameSet.mem_union]
        grind

@[simp] theorem takes_addGroup {i : Imports} {file name k : String} {names : NameSet} :
    (i.addGroup file names).Takes k name ↔
      (k = file ∧ name ∈ names.toList) ∨ i.Takes k name := takes_join

@[simp] theorem toList_addUnplaced {i : Imports} {names : NameSet} :
    (i.addUnplaced names).toList = i.toList := by
  unfold addUnplaced
  split <;> rfl

@[simp] theorem takes_addUnplaced {i : Imports} {names : NameSet} {k n : String} :
    (i.addUnplaced names).Takes k n ↔ i.Takes k n := by
  simp [Takes]

@[simp] theorem takes_opening {i j : Imports} {k n : String} :
    (i.opening j).Takes k n ↔ i.Takes k n := by
  unfold opening
  split <;> simp

@[simp] theorem takes_add {i : Imports} {file name k n : String} :
    (i.add file name).Takes k n ↔ (k = file ∧ n = name) ∨ i.Takes k n := by
  simp [add, NameSet.mem_insert]

theorem takes_foldl_addGroup {i : Imports} {k n : String} {l : List (String × NameSet)} :
    (l.foldl (fun i g => i.addGroup g.1 g.2) i).Takes k n ↔
      i.Takes k n ∨ ∃ g ∈ l, g.1 = k ∧ n ∈ g.2.toList := by
  induction l generalizing i with
  | nil => simp
  | cons g t ih =>
    simp only [List.foldl_cons, ih, takes_addGroup, List.mem_cons, exists_eq_or_imp]
    grind

@[simp] theorem takes_merge {i j : Imports} {k n : String} :
    (i.merge j).Takes k n ↔ i.Takes k n ∨ j.Takes k n := by
  rw [merge, takes_addUnplaced, takes_foldl_addGroup, takes_opening]
  rfl

@[simp] theorem takes_addFrom {i : Imports} {file : Option String} {name k n : String} :
    (i.addFrom file name).Takes k n ↔ (file = some k ∧ n = name) ∨ i.Takes k n := by
  cases file <;> simp [addFrom, eq_comm]

theorem takes_foldl_merge {α : Type} {f : α → Imports} {i : Imports} {k n : String} {l : List α} :
    (l.foldl (fun i a => i.merge (f a)) i).Takes k n ↔ i.Takes k n ∨ ∃ a ∈ l, (f a).Takes k n := by
  induction l generalizing i with
  | nil => simp
  | cons a t ih =>
    simp only [List.foldl_cons, ih, takes_merge, List.mem_cons, exists_eq_or_imp, or_assoc]

theorem takes_foldl_add {α : Type} {file name : α → String} {i : Imports} {k n : String}
    {l : List α} : (l.foldl (fun i a => i.add (file a) (name a)) i).Takes k n ↔
      i.Takes k n ∨ ∃ a ∈ l, k = file a ∧ n = name a := by
  induction l generalizing i with
  | nil => simp
  | cons a t ih =>
    simp only [List.foldl_cons, ih, takes_add, List.mem_cons, exists_eq_or_imp]
    grind

@[simp] theorem unplaced_addGroup {i : Imports} {file : String} {names : NameSet} :
    (i.addGroup file names).unplaced = i.unplaced := rfl

@[simp] theorem unplaced_add {i : Imports} {file name : String} :
    (i.add file name).unplaced = i.unplaced := rfl

@[simp] theorem unplaced_foldl_addGroup {i : Imports} {l : List (String × NameSet)} :
    (l.foldl (fun i g => i.addGroup g.1 g.2) i).unplaced = i.unplaced := by
  induction l generalizing i with
  | nil => rfl
  | cons g t ih => exact ih

@[simp] theorem mem_unplaced_addUnplaced {i : Imports} {names : NameSet} {n : String} :
    n ∈ (i.addUnplaced names).unplaced.toList ↔
      n ∈ i.unplaced.toList ∨ n ∈ names.toList := by
  unfold addUnplaced
  split
  · rename_i h
    simp [NameSet.isEmpty_iff.1 h n]
  · exact NameSet.mem_union

@[simp] theorem mem_unplaced_merge {i j : Imports} {n : String} :
    n ∈ (i.merge j).unplaced.toList ↔ n ∈ i.unplaced.toList ∨ n ∈ j.unplaced.toList := by
  rw [merge, mem_unplaced_addUnplaced, unplaced_foldl_addGroup, opening]
  split <;> simp

@[simp] theorem mem_unplaced_addFrom {i : Imports} {file : Option String} {name n : String} :
    n ∈ (i.addFrom file name).unplaced.toList ↔ (file = none ∧ n = name) ∨
      n ∈ i.unplaced.toList := by
  cases file <;> simp [addFrom, NameSet.mem_insert, or_comm]

theorem exists_of_unplaced? {i : Imports} {place : Unplaced} (h : i.unplaced? = some place) :
    ∃ n, n ∈ i.unplaced.toList := by
  cases hnames : i.unplaced.toList with
  | nil => simp [unplaced?, NameSet.isEmpty, hnames] at h
  | cons n _ => exact ⟨n, by simp⟩

end Imports
end HydraClient
