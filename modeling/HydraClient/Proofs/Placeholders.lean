import HydraClient.Check
import HydraClient.Proofs.Contributions
import HydraClient.Routes
import Mathlib.Data.List.TakeWhile

/-! # Placeholders of routes

A path that passes the check is a template: characters and placeholders one after the other. The
placeholders are read in the same way when the route is composed, unless one ends with a line feed.
The check overlooks it, but a placeholder is composed only if it is on one line.
-/
namespace HydraClient

namespace OrderedMap

variable {α β : Type} [DecidableEq α] {m : OrderedMap α β} {k : α} {v : β}

theorem entries_insert_of_not_mem (h : k ∉ m.keys) :
    (m.insert k v).entries = m.entries ++ [(k, v)] := by
  rw [insert, dif_neg h, push]

theorem insert_eq_self (h : m.get? k = some v) : m.insert k v = m := by
  have hmem : k ∈ m.keys := mem_keys_iff.2 ⟨v, h⟩
  apply ext
  rw [insert, dif_pos hmem]
  refine (List.map_congr_left fun e he => ?_).trans (List.map_id _)
  by_cases hk : e.1 = k
  · have hv : m.get? k = some e.2 := mem_entries_iff.1 (hk ▸ he)
    obtain rfl := Option.some.inj (h.symm.trans hv)
    simp [← hk]
  · simp [hk]

variable {l : List α} {f : α → Option β}

theorem entries_ofList_filterMap :
    (ofList (l.filterMap fun a => (f a).map (a, ·))).entries =
      l.eraseDups.filterMap fun a => (f a).map (a, ·) := by
  induction l using List.reverseRecOn with
  | nil => rfl
  | append_singleton init a ih =>
    rw [List.filterMap_append, eraseDups_concat]
    have hlast : [a].filterMap (fun a => (f a).map (a, ·)) = ((f a).map (a, ·)).toList := by
      cases ha : f a <;> simp [ha]
    have hmem : ∀ {a b}, (a, b) ∈ (ofList (init.filterMap fun a => (f a).map (a, ·))).entries ↔
        a ∈ init ∧ f a = some b := by
      intro a b
      rw [ih, List.mem_filterMap]
      constructor
      · rintro ⟨a', ha', hpair⟩
        obtain ⟨b', hb', hpair⟩ := Option.map_eq_some_iff.1 hpair
        obtain ⟨rfl, rfl⟩ := Prod.mk.inj hpair
        exact ⟨List.mem_eraseDups.1 ha', hb'⟩
      · rintro ⟨hinit, hb⟩
        exact ⟨a, List.mem_eraseDups.2 hinit, by rw [hb]; rfl⟩
    rw [hlast]
    cases ha : f a with
    | none =>
      rw [Option.map_none, Option.toList_none, List.append_nil, ih]
      by_cases hinit : a ∈ init
      · rw [if_pos hinit]
      · rw [if_neg hinit, List.filterMap_append, hlast, ha]
        simp
    | some b =>
      have hput : ofList (init.filterMap (fun a => (f a).map (a, ·)) ++ [(a, b)]) =
          (ofList (init.filterMap fun a => (f a).map (a, ·))).insert a b := by simp [ofList]
      rw [Option.map_some, Option.toList_some, hput]
      by_cases hinit : a ∈ init
      · rw [if_pos hinit, insert_eq_self (mem_entries_iff.1 (hmem.2 ⟨hinit, ha⟩)), ih]
      · have hfresh : a ∉ (ofList (init.filterMap fun a => (f a).map (a, ·))).keys := by
          intro hkey
          obtain ⟨e, he, rfl⟩ := List.mem_map.1 hkey
          exact hinit (hmem.1 he).1
        rw [if_neg hinit, entries_insert_of_not_mem hfresh, ih, List.filterMap_append, hlast, ha]
        rfl

end OrderedMap

namespace Routes

open Metadata (Route)

def Plain (s : List Char) : Prop := '\x7b' ∉ s ∧ '\x7d' ∉ s

def braced (s : List Char) : List Char := '\x7b' :: (s ++ ['\x7d'])

/-- What stands between the braces of a placeholder: a name, a requirement in angle brackets if any,
and perhaps a line feed. -/
structure Slot where
  name : List Char
  requirement : Option (List Char) := none
  feed : Bool := false

namespace Slot

def bracketed (p : Slot) : List Char := p.requirement.elim [] fun q => '<' :: (q ++ ['>'])

def ending (p : Slot) : List Char := if p.feed then ['\n'] else []

def inside (p : Slot) : List Char := p.name ++ p.bracketed ++ p.ending

def label (p : Slot) : List Char := if p.requirement.isSome then p.name else p.name ++ p.ending

structure WellFormed (p : Slot) : Prop where
  name : ∃ c rest, p.name = c :: rest ∧ (c.isAlpha || c == '_') = true ∧
    ∀ d ∈ rest, (d.isAlphanum || d == '_') = true
  requirement : ∀ q, p.requirement = some q → q ≠ [] ∧ '\n' ∉ q ∧ Plain q

end Slot

inductive Piece where
  | char (c : Char)
  | slot (p : Slot)

namespace Piece

def slot? : Piece → Option Slot
  | char _ => none
  | slot p => some p

def WellFormed : Piece → Prop
  | char c => Plain [c]
  | slot p => p.WellFormed

def written : Piece → List Char
  | char c => [c]
  | slot p => braced p.inside

def stripped : Piece → List Char
  | char c => [c]
  | slot p => braced (p.name ++ p.ending)

def reduced : Piece → List Char
  | char c => [c]
  | slot p => if p.feed then braced p.inside else braced p.name

end Piece

def slots (t : List Piece) : List Slot := t.filterMap Piece.slot?

/-- The names of the placeholders that are on one line. -/
def variableNames (t : List Piece) : List String :=
  (slots t).filterMap fun p => if p.feed then none else some (String.ofList p.name)

section Checked

variable {s inside after : List Char} {n : Nat}

theorem closing?_eq_some (h : Check.closing? s = some (inside, after)) :
    s = inside ++ '\x7d' :: after ∧ Plain inside := by
  induction s generalizing inside with
  | nil => cases h
  | cons c rest ih =>
    by_cases hclose : c = '\x7d'
    · subst hclose
      obtain ⟨rfl, rfl⟩ := Prod.mk.inj (Option.some.inj h)
      exact ⟨rfl, by simp [Plain]⟩
    by_cases hopen : c = '\x7b'
    · subst hopen
      cases h
    rw [Check.closing?.eq_4 c rest hclose hopen] at h
    obtain ⟨⟨inside', after'⟩, hrest, hpair⟩ := Option.map_eq_some_iff.1 h
    obtain ⟨rfl, rfl⟩ := Prod.mk.inj hpair
    obtain ⟨rfl, hplain⟩ := ih hrest
    exact ⟨rfl, by simpa [Ne.symm hopen] using hplain.1, by simpa [Ne.symm hclose] using hplain.2⟩

theorem placeholders_char {c : Char} {rest : List Char} (hc : c ≠ '\x7b') :
    Check.placeholders (n + 1) (c :: rest) =
      ((Check.placeholders n rest).1, c :: (Check.placeholders n rest).2) := by
  rw [Check.placeholders, if_neg hc]

theorem placeholders_open {rest : List Char} (h : Check.closing? rest = none) :
    Check.placeholders (n + 1) ('\x7b' :: rest) =
      ((Check.placeholders n rest).1, '\x7b' :: (Check.placeholders n rest).2) := by
  rw [Check.placeholders, if_pos rfl, h]

theorem placeholders_slot {rest : List Char} (h : Check.closing? rest = some (inside, after)) :
    Check.placeholders (n + 1) ('\x7b' :: rest) =
      (inside :: (Check.placeholders n after).1, (Check.placeholders n after).2) := by
  rw [Check.placeholders, if_pos rfl, h]

/-- What the check takes for a placeholder is a name, a requirement and a line feed. -/
theorem exists_slot (hs : Plain s) (h : Check.isPlaceholder s = true) :
    ∃ p : Slot, p.WellFormed ∧ s = p.inside := by
  unfold Check.isPlaceholder at h
  obtain ⟨feed, s', hs', hfeed⟩ : ∃ (feed : Bool) (s' : List Char),
      (if s.getLast? = some '\n' then s.dropLast else s) = s' ∧
        s = s' ++ if feed then ['\n'] else [] := by
    by_cases hlast : s.getLast? = some '\n'
    · refine ⟨true, s.dropLast, if_pos hlast, ?_⟩
      obtain ⟨s', rfl⟩ := List.getLast?_eq_some_iff.1 hlast
      simp
    · exact ⟨false, s, if_neg hlast, (List.append_nil s).symm⟩
  rw [hs'] at h
  have hplain : Plain s' := by
    rw [hfeed] at hs
    exact ⟨fun hmem => hs.1 (List.mem_append_left _ hmem),
      fun hmem => hs.2 (List.mem_append_left _ hmem)⟩
  cases s' with
  | nil => cases h
  | cons c rest =>
    dsimp only at h
    rw [Bool.and_eq_true] at h
    obtain ⟨hstart, htail⟩ := h
    have hchars : ∀ d ∈ rest.takeWhile fun c => c.isAlphanum || c == '_',
        (d.isAlphanum || d == '_') = true :=
      fun d hd => List.mem_takeWhile_imp (p := fun c => c.isAlphanum || c == '_') hd
    have hrest := List.prefix_iff_eq_append.1
      (List.takeWhile_prefix (l := rest) fun c => c.isAlphanum || c == '_')
    generalize rest.takeWhile (fun c => c.isAlphanum || c == '_') = name at hchars hrest htail
    generalize rest.drop name.length = tail at hrest htail
    subst hrest
    have hname : ∃ c' rest', c :: name = c' :: rest' ∧ (c'.isAlpha || c' == '_') = true ∧
        ∀ d ∈ rest', (d.isAlphanum || d == '_') = true := ⟨c, name, rfl, hstart, hchars⟩
    split at htail
    · refine ⟨⟨c :: name, none, feed⟩, ⟨hname, by simp⟩, ?_⟩
      rw [hfeed, List.append_nil]
      simp [Slot.inside, Slot.bracketed, Slot.ending]
    · rename_i body
      simp only [Bool.and_eq_true, decide_eq_true_eq, beq_iff_eq, Bool.not_eq_true',
        List.getLast?_eq_some_iff] at htail
      obtain ⟨⟨hlength, q, rfl⟩, hline⟩ := htail
      rw [List.dropLast_concat] at hline
      refine ⟨⟨c :: name, some q, feed⟩, ⟨hname, ?_⟩, ?_⟩
      · rintro q' hq
        obtain rfl := Option.some.inj hq
        refine ⟨?_, ?_, ?_, ?_⟩
        · rintro rfl
          simp at hlength
        · simpa using hline
        · exact fun hmem => hplain.1 (by simp [hmem])
        · exact fun hmem => hplain.2 (by simp [hmem])
      · rw [hfeed]
        simp [Slot.inside, Slot.bracketed, Slot.ending]
    · cases htail

theorem exists_template (hfuel : s.length ≤ n) (hplain : Plain (Check.placeholders n s).2)
    (hslots : ∀ p ∈ (Check.placeholders n s).1, Check.isPlaceholder p = true) :
    ∃ t : List Piece, (∀ p ∈ t, p.WellFormed) ∧ s = t.flatMap Piece.written ∧
      (Check.placeholders n s).1 = (slots t).map Slot.inside := by
  induction n generalizing s with
  | zero =>
    obtain rfl := List.eq_nil_of_length_eq_zero (Nat.le_zero.1 hfuel)
    exact ⟨[], by simp, rfl, rfl⟩
  | succ n ih =>
    cases s with
    | nil => exact ⟨[], by simp, rfl, rfl⟩
    | cons c rest =>
      rw [List.length_cons, Nat.add_le_add_iff_right] at hfuel
      by_cases hc : c = '\x7b'
      · subst hc
        cases hclosing : Check.closing? rest with
        | none =>
          -- The brace is left over.
          rw [placeholders_open hclosing] at hplain
          exact absurd List.mem_cons_self hplain.1
        | some found =>
          obtain ⟨inside, after⟩ := found
          rw [placeholders_slot hclosing] at hplain hslots ⊢
          rw [List.forall_mem_cons] at hslots
          obtain ⟨rfl, hinside⟩ := closing?_eq_some hclosing
          obtain ⟨p, hp, rfl⟩ := exists_slot hinside hslots.1
          obtain ⟨t, ht, rfl, hrest⟩ := ih (by simp at hfuel; omega) hplain hslots.2
          refine ⟨.slot p :: t, List.forall_mem_cons.2 ⟨hp, ht⟩, ?_, congrArg _ hrest⟩
          simp [Piece.written, braced]
      · rw [placeholders_char hc] at hplain hslots ⊢
        obtain ⟨hopen, hclose⟩ := hplain
        rw [List.mem_cons, not_or] at hopen hclose
        obtain ⟨t, ht, rfl, hrest⟩ := ih hfuel ⟨hopen.2, hclose.2⟩ hslots
        refine ⟨.char c :: t, List.forall_mem_cons.2 ⟨?_, ht⟩, rfl, hrest⟩
        exact ⟨by simpa using hopen.1, by simpa using hclose.1⟩

end Checked

def Shape.read (defaults : OrderedMap String Json) (acc : Shape) : Piece → Shape
  | .char c => { acc with path := acc.path ++ [c] }
  | .slot p =>
    if p.feed then { acc with path := acc.path ++ braced p.inside }
    else
      let name := String.ofList p.name
      { path := acc.path ++ braced p.name
        vars := acc.vars.insert name (defaults.get? name).isNone
        defaults := match defaults.get? name with
          | some v => acc.defaults.insert name v
          | none => acc.defaults }

section Composed

variable {s rest q : List Char} {p : Slot} {n : Nat} {defaults : OrderedMap String Json}
  {acc : Shape} {t : List Piece}

namespace Slot.WellFormed

variable (h : p.WellFormed)
include h

theorem mem_name {c : Char} (hc : c ∈ p.name) : (c.isAlphanum || c == '_') = true := by
  obtain ⟨d, rest, hname, hstart, hrest⟩ := h.name
  rw [hname] at hc
  rcases List.mem_cons.1 hc with rfl | hc
  · rw [Bool.or_eq_true] at hstart ⊢
    exact hstart.imp (fun hd => by simp [Char.isAlphanum, hd]) id
  · exact hrest c hc

theorem not_mem_name {c : Char} (hc : (c.isAlphanum || c == '_') = false) : c ∉ p.name := by
  intro hmem
  cases (h.mem_name hmem).symm.trans hc

theorem not_mem_text {c : Char} (hc : (c.isAlphanum || c == '_') = false)
    (hopen : c ≠ '<') (hclose : c ≠ '>') (hq : ∀ q, p.requirement = some q → c ∉ q) :
    c ∉ p.name ++ p.bracketed := by
  rw [List.mem_append, not_or]
  refine ⟨h.not_mem_name hc, ?_⟩
  unfold bracketed
  cases hr : p.requirement with
  | none => simp
  | some q => simp [hopen, hclose, hq q hr]

theorem line_text : '\n' ∉ p.name ++ p.bracketed :=
  h.not_mem_text (by decide) (by decide) (by decide) fun q hq => (h.requirement q hq).2.1

theorem plain_text : Plain (p.name ++ p.bracketed) :=
  ⟨h.not_mem_text (by decide) (by decide) (by decide) fun q hq => (h.requirement q hq).2.2.1,
    h.not_mem_text (by decide) (by decide) (by decide) fun q hq => (h.requirement q hq).2.2.2⟩

theorem text_ne_nil : p.name ++ p.bracketed ≠ [] := by
  obtain ⟨c, name, hname, -, -⟩ := h.name
  rw [hname]
  exact List.cons_ne_nil _ _

theorem variableName_text : variableName (p.name ++ p.bracketed) = p.name := by
  obtain ⟨c, name, hname, -, -⟩ := h.name
  have hopen : '<' ∉ name := by
    have hmem := h.not_mem_name (c := '<') (by decide)
    rw [hname, List.mem_cons, not_or] at hmem
    exact hmem.2
  have hchars : ∀ d ∈ name, (d != '<') = true := by
    intro d hd
    rw [bne_iff_ne]
    rintro rfl
    exact hopen hd
  unfold bracketed
  rw [hname, List.cons_append, variableName, List.takeWhile_append_of_pos hchars]
  cases hr : p.requirement with
  | none => simp
  | some q =>
    have hq : q ≠ [] := (h.requirement q hr).1
    have hlast : ('<' :: (q ++ ['>'])).getLast? = some '>' := 
      List.getLast?_concat (l := '<' :: q)
    simp [hlast, hq]

end Slot.WellFormed

theorem takeWhile_line {c : Char} (hline : '\n' ∉ s) (hclose : '\x7d' ∉ s)
    (hc : (c != '\x7d' && c != '\n') = false) :
    (s ++ c :: rest).takeWhile (fun d => d != '\x7d' && d != '\n') = s := by
  rw [List.takeWhile_append_of_pos, List.takeWhile_cons, hc]
  · simp
  · intro d hd
    rw [Bool.and_eq_true, bne_iff_ne, bne_iff_ne]
    exact ⟨fun h => hclose (h ▸ hd), fun h => hline (h ▸ hd)⟩

theorem placeholder?_of_line (hs : s ≠ []) (hline : '\n' ∉ s) (hclose : '\x7d' ∉ s) :
    placeholder? (s ++ '\x7d' :: rest) = some (s, rest) := by
  obtain ⟨c, tail, rfl⟩ := List.exists_cons_of_ne_nil hs
  rw [List.mem_cons, not_or] at hline hclose
  rw [List.cons_append, placeholder?, takeWhile_line hline.2 hclose.2 (by simp),
    if_neg (Ne.symm hline.1), List.drop_left]
  rfl

theorem placeholder?_of_feed (hline : '\n' ∉ s) (hclose : '\x7d' ∉ s) :
    placeholder? (s ++ '\n' :: rest) = none := by
  cases s with
  | nil => rfl
  | cons c tail =>
    rw [List.mem_cons, not_or] at hline hclose
    rw [List.cons_append, placeholder?, takeWhile_line hline.2 hclose.2 (by simp),
      if_neg (Ne.symm hline.1), List.drop_left]
    rfl

theorem shapeFrom_text (hs : '\x7b' ∉ s) :
    shapeFrom defaults (s.length + n) (s ++ rest) acc =
      shapeFrom defaults n rest { acc with path := acc.path ++ s } := by
  induction s generalizing acc with
  | nil => simp
  | cons c s ih =>
    rw [List.mem_cons, not_or] at hs
    have hlength : (c :: s).length + n = s.length + n + 1 := by
      rw [List.length_cons]
      omega
    rw [hlength, List.cons_append, shapeFrom, if_neg (Ne.symm hs.1), ih hs.2]
    simp

theorem shapeFrom_open (h : placeholder? rest = none) :
    shapeFrom defaults (n + 1) ('\x7b' :: rest) acc =
      shapeFrom defaults n rest { acc with path := acc.path ++ ['\x7b'] } := by
  rw [shapeFrom, if_pos rfl, h]

theorem shapeFrom_slot {after : List Char} (h : placeholder? rest = some (s, after)) :
    shapeFrom defaults (n + 1) ('\x7b' :: rest) acc =
      let name := String.ofList (variableName s)
      shapeFrom defaults n after {
        path := acc.path ++ ['\x7b'] ++ variableName s ++ ['\x7d']
        vars := acc.vars.insert name (defaults.get? name).isNone
        defaults := match defaults.get? name with
          | some v => acc.defaults.insert name v
          | none => acc.defaults } := by
  rw [shapeFrom]
  cases hget : defaults.get? (String.ofList (variableName s)) <;> simp only [if_true, h, hget]

theorem shapeFrom_piece {p : Piece} (hp : p.WellFormed)
    (hfuel : (p.written ++ rest).length ≤ n) :
    ∃ n', rest.length ≤ n' ∧
      shapeFrom defaults n (p.written ++ rest) acc =
        shapeFrom defaults n' rest (acc.read defaults p) := by
  obtain ⟨n, rfl⟩ := Nat.exists_eq_add_of_le hfuel
  cases p with
  | char c =>
    refine ⟨rest.length + n, by omega, ?_⟩
    have hlength : ((Piece.char c).written ++ rest).length + n =
        [c].length + (rest.length + n) := by
      rw [List.length_append, Nat.add_assoc]
      rfl
    rw [hlength]
    exact shapeFrom_text hp.1
  | slot p =>
    have hp : p.WellFormed := hp
    cases hfeed : p.feed with
    | true =>
      have hinside : p.inside = p.name ++ p.bracketed ++ ['\n'] := by
        rw [Slot.inside, Slot.ending, hfeed, if_pos rfl]
      have hopen : '\x7b' ∉ p.inside ++ ['\x7d'] := by
        simpa [hinside] using hp.plain_text.1
      have hnone : placeholder? (p.inside ++ ['\x7d'] ++ rest) = none := by
        rw [hinside, List.append_assoc, List.append_assoc]
        exact placeholder?_of_feed hp.line_text hp.plain_text.2
      have hlength : ((Piece.slot p).written ++ rest).length + n =
          (p.inside ++ ['\x7d']).length + (rest.length + n) + 1 := by
        simp [Piece.written, braced]
        omega
      refine ⟨rest.length + n, by omega, ?_⟩
      rw [hlength, Piece.written, braced, List.cons_append, shapeFrom_open hnone,
        shapeFrom_text hopen, Shape.read, if_pos hfeed]
      simp [braced]
    | false =>
      have hinside : p.inside = p.name ++ p.bracketed := by
        rw [Slot.inside, Slot.ending, hfeed, if_neg (by simp), List.append_nil]
      have hsome : placeholder? (p.inside ++ ['\x7d'] ++ rest) = some (p.inside, rest) := by
        rw [hinside, List.append_assoc]
        exact placeholder?_of_line hp.text_ne_nil hp.line_text hp.plain_text.2
      have hlength : ((Piece.slot p).written ++ rest).length + n =
          p.inside.length + 1 + rest.length + n + 1 := by
        simp [Piece.written, braced]
        omega
      refine ⟨p.inside.length + 1 + rest.length + n, by omega, ?_⟩
      rw [hlength, Piece.written, braced, List.cons_append, shapeFrom_slot hsome, hinside,
        hp.variableName_text, Shape.read, if_neg (by simp [hfeed])]
      simp [braced]

theorem shapeFrom_template (ht : ∀ p ∈ t, p.WellFormed)
    (hfuel : (t.flatMap Piece.written).length ≤ n) :
    shapeFrom defaults n (t.flatMap Piece.written) acc = t.foldl (Shape.read defaults) acc := by
  induction t generalizing n acc with
  | nil => cases n <;> simp [shapeFrom]
  | cons p t ih =>
    rw [List.forall_mem_cons] at ht
    rw [List.flatMap_cons] at hfuel ⊢
    obtain ⟨n', hn', hpiece⟩ := shapeFrom_piece ht.1 hfuel
    rw [hpiece, ih ht.2 hn', List.foldl_cons]

theorem foldl_read : t.foldl (Shape.read defaults) {} = {
    path := t.flatMap Piece.reduced
    vars := .ofList ((variableNames t).filterMap fun n =>
      (some (defaults.get? n).isNone).map (n, ·))
    defaults := .ofList ((variableNames t).filterMap fun n => (defaults.get? n).map (n, ·)) } := by
  induction t using List.reverseRecOn with
  | nil => rfl
  | append_singleton init p ih =>
    have hnames : variableNames (init ++ [p]) = variableNames init ++
        p.slot?.toList.filterMap fun p => if p.feed then none else some (String.ofList p.name) := by
      cases p <;> simp [variableNames, slots, Piece.slot?]
    rw [List.foldl_append, ih, hnames, List.flatMap_append, List.filterMap_append,
      List.filterMap_append]
    cases p with
    | char c => simp [Shape.read, Piece.reduced, Piece.slot?]
    | slot p =>
      cases hfeed : p.feed with
      | true => simp [Shape.read, Piece.reduced, Piece.slot?, hfeed]
      | false =>
        cases hget : defaults.get? (String.ofList p.name) <;>
          simp [Shape.read, Piece.reduced, Piece.slot?, hfeed, hget, OrderedMap.ofList]

end Composed

/-- The settings of a route with a path and variables, each of them required unless the route has a
default for it. -/
def settingsWith (r : Route) (path : List Char) (names : List String) : List (String × Json) :=
  [("name", .str r.name), ("path", .str (String.ofList path)),
    ("vars", .obj (names.eraseDups.map fun n =>
      (n, .obj [("isRequired", .bool (r.defaults.get? n).isNone)]))),
    ("defaults", .obj (names.eraseDups.filterMap fun n => (r.defaults.get? n).map (n, ·))),
    ("meta", .obj [])]

section Agreement

variable {r : Route} {t : List Piece} {again : Bool} {path path' : List Char}
  {names names' : List String}

theorem settingsWith_inj (h : settingsWith r path names = settingsWith r path' names') :
    path = path' ∧ names.eraseDups = names'.eraseDups := by
  simp only [settingsWith, List.cons.injEq, Prod.mk.injEq, Json.str.injEq, Json.obj.injEq,
    String.ofList_inj] at h
  obtain ⟨-, ⟨-, hpath⟩, ⟨-, hvars⟩, -⟩ := h
  refine ⟨hpath, ?_⟩
  simpa [Function.comp_def] using congrArg (List.map Prod.fst) hvars

theorem wellFormed_of_mem {p : Slot} (ht : ∀ p ∈ t, p.WellFormed) (hp : p ∈ slots t) :
    p.WellFormed := by
  obtain ⟨piece, hpiece, hslot⟩ := List.mem_filterMap.1 hp
  cases piece with
  | char c => cases hslot
  | slot p' =>
    obtain rfl := Option.some.inj hslot
    exact ht _ hpiece

theorem settings_of_template (ht : ∀ p ∈ t, p.WellFormed)
    (hpath : r.path.toList = t.flatMap Piece.written) :
    settings r = settingsWith r (t.flatMap Piece.reduced) (variableNames t) := by
  have hshape : shapeOf r = t.foldl (Shape.read r.defaults) {} := by
    rw [shapeOf, hpath]
    exact shapeFrom_template ht le_rfl
  rw [settings, hshape, foldl_read]
  dsimp only
  rw [OrderedMap.entries_ofList_filterMap, OrderedMap.entries_ofList_filterMap]
  simp [settingsWith]

theorem exists_template_of_checked
    (h : ∀ f ∈ Check.route r again, f.code ≠ "BAD_ROUTE_PLACEHOLDER") :
    ∃ t : List Piece, (∀ p ∈ t, p.WellFormed) ∧ r.path.toList = t.flatMap Piece.written ∧
      (Check.placeholders r.path.toList.length r.path.toList).1 = (slots t).map Slot.inside := by
  have hbraces := fun f hf => h f (List.mem_append_right _ hf)
  by_cases hb : ((Check.placeholders r.path.toList.length r.path.toList).2.contains '\x7b' ||
      (Check.placeholders r.path.toList.length r.path.toList).2.contains '\x7d') = true
  · exfalso
    apply hbraces
    · rw [if_pos hb]
      exact List.mem_singleton.2 rfl
    · rfl
  · apply exists_template le_rfl
    · simpa [Plain, not_or] using hb
    · intro p hp
      by_contra hbad
      apply hbraces
      · rw [if_neg hb]
        exact List.mem_map.2 ⟨p, List.mem_filter.2 ⟨hp, by simpa using hbad⟩, rfl⟩
      · rfl

/-- Requirements are removed from all placeholders only if none of those that have one ends with a
line feed. -/
theorem requirement_of_reduced
    (h : t.flatMap Piece.reduced = t.flatMap Piece.stripped) :
    ∀ p ∈ slots t, p.feed = true → p.requirement = none := by
  induction t with
  | nil => simp [slots]
  | cons p t ih =>
    rw [List.flatMap_cons, List.flatMap_cons] at h
    cases p with
    | char c => exact ih (List.append_cancel_left h)
    | slot p =>
      simp only [slots, List.filterMap_cons, Piece.slot?, List.forall_mem_cons]
      cases hfeed : p.feed with
      | false =>
        refine ⟨by simp, ih ?_⟩
        simpa [Piece.reduced, Piece.stripped, Slot.ending, hfeed] using h
      | true =>
        cases hr : p.requirement with
        | none =>
          refine ⟨by simp, ih ?_⟩
          simpa [Piece.reduced, Piece.stripped, Slot.ending, Slot.inside, Slot.bracketed, hfeed, hr]
            using h
        | some q =>
          -- Behind the name one text goes on with the requirement, the other with the line feed.
          simp [Piece.reduced, Piece.stripped, Slot.ending, Slot.inside, Slot.bracketed, hfeed, hr,
            braced] at h

theorem reduced_of_line (h : ∀ p ∈ slots t, p.feed = false) :
    t.flatMap Piece.reduced = t.flatMap Piece.stripped ∧
      variableNames t = (slots t).map fun p => String.ofList p.label := by
  constructor
  · refine List.flatMap_congr fun p hp => ?_
    cases p with
    | char c => rfl
    | slot p =>
      have hfeed := h p (List.mem_filterMap.2 ⟨_, hp, rfl⟩)
      simp [Piece.reduced, Piece.stripped, Slot.ending, hfeed]
  · rw [variableNames, ← List.filterMap_eq_map]
    refine List.filterMap_congr fun p hp => ?_
    simp [Slot.label, Slot.ending, h p hp]

end Agreement

/-- A path that passes the check is a template, of which the check and the composed route see the
same placeholders, except that a placeholder with a line feed at its end is left as it is. -/
theorem placeholders_read (r : Route) (again : Bool)
    (h : ∀ f ∈ Check.route r again, f.code ≠ "BAD_ROUTE_PLACEHOLDER") :
    ∃ t : List Piece, (∀ p ∈ t, p.WellFormed) ∧ r.path.toList = t.flatMap Piece.written ∧
      (Check.placeholders r.path.toList.length r.path.toList).1 = (slots t).map Slot.inside ∧
      settings r = settingsWith r (t.flatMap Piece.reduced) (variableNames t) ∧
      (settings r = settingsWith r (t.flatMap Piece.stripped)
          ((slots t).map fun p => String.ofList p.label) ↔
        ∀ p ∈ slots t, p.feed = false) := by
  obtain ⟨t, ht, hpath, hslots⟩ := exists_template_of_checked h
  have hsettings := settings_of_template ht hpath
  refine ⟨t, ht, hpath, hslots, hsettings, ?_⟩
  rw [hsettings]
  constructor
  · intro hsame p hp
    obtain ⟨hreduced, hnames⟩ := settingsWith_inj hsame
    by_contra hfeed
    rw [Bool.not_eq_false] at hfeed
    -- Without a requirement the line feed belongs to the name.
    have hlabel : p.label = p.name ++ ['\n'] := by
      simp [Slot.label, Slot.ending, requirement_of_reduced hreduced p hp hfeed, hfeed]
    have hmem : String.ofList p.label ∈ variableNames t := by
      rw [← List.mem_eraseDups, hnames, List.mem_eraseDups]
      exact List.mem_map_of_mem (f := fun p : Slot => String.ofList p.label) hp
    obtain ⟨p', hp', hname⟩ := List.mem_filterMap.1 hmem
    split at hname
    · cases hname
    · have hfeed' : '\n' ∈ p'.name := by
        rw [String.ofList_inj.1 (Option.some.inj hname), hlabel]
        simp
      exact (wellFormed_of_mem ht hp').not_mem_name (by decide) hfeed'
  · intro hline
    obtain ⟨hreduced, hnames⟩ := reduced_of_line hline
    rw [hreduced, hnames]

def blog : Route where
  name := "blog"
  path := "/blog/\x7bpage<\\d+>\x7d/\x7bslug\x7d"
  defaults := .ofList [("page", .int 1)]

theorem blog_is_read_as_checked : ∃ t : List Piece,
    blog.path.toList = t.flatMap Piece.written ∧
    (slots t).map Slot.inside = ["page<\\d+>".toList, "slug".toList] ∧
    settings blog = settingsWith blog (t.flatMap Piece.stripped)
      ((slots t).map fun p => String.ofList p.label) := by
  have hchecked : ∀ f ∈ Check.route blog false, f.code ≠ "BAD_ROUTE_PLACEHOLDER" := by
    decide +kernel
  have hplaceholders : (Check.placeholders blog.path.toList.length blog.path.toList).1 =
      ["page<\\d+>".toList, "slug".toList] := by decide +kernel
  obtain ⟨t, -, hpath, hslots, -, hiff⟩ := placeholders_read blog false hchecked
  rw [hplaceholders] at hslots
  refine ⟨t, hpath, hslots.symm, hiff.2 fun p hp => ?_⟩
  have hlines : ∀ s ∈ ["page<\\d+>".toList, "slug".toList], '\n' ∉ s := by decide
  by_contra hfeed
  rw [Bool.not_eq_false] at hfeed
  refine hlines p.inside (hslots ▸ List.mem_map_of_mem hp) ?_
  simp [Slot.inside, Slot.ending, hfeed]

def lined : Route where
  name := "app.show"
  path := "/a/\x7bid<\\d+>\n\x7d"

/-- A placeholder that the check accepts is missed. -/
theorem lined_is_not_read :
    (∀ f ∈ Check.route lined false, f.code ≠ "BAD_ROUTE_PLACEHOLDER") ∧
    (Check.placeholders lined.path.toList.length lined.path.toList).1 =
      ["id<\\d+>\n".toList] ∧
    (shapeOf lined).path = lined.path.toList ∧ (shapeOf lined).vars.keys = [] := by
  decide +kernel

end Routes
end HydraClient
