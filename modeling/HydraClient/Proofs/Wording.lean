import HydraClient.Filter
import HydraClient.Model

/-! # Names in type expressions

Type expressions are put together from terms, and a term tells which names it brings into the text.
Keys of records and literals of enumerated values bring none.
-/
namespace HydraClient

/-- A type by its name, or a generic type with its argument. -/
inductive Atom where
  | named (n : String)
  | applied (generic argument : String)

namespace Atom

def text : Atom → String
  | named n => n
  | applied generic argument => generic ++ "<" ++ argument ++ ">"

def names : Atom → List String
  | named n => [n]
  | applied generic argument => [generic, argument]

end Atom

inductive TypeTerm where
  | atom (a : Atom)
  | array (elements : List Atom)
  | dictionary (elements : List Atom)
  | record (keys : List String) (value : String)
  | partialRecord (keys : List String) (value : String)
  | literal (v : Json) (s : String) (h : Script.literal v = .ok s)

namespace TypeTerm

def alternatives (as : List Atom) : String := String.intercalate "|" (as.map Atom.text)

def text : TypeTerm → String
  | atom a => a.text
  | array as => "Array<" ++ alternatives as ++ ">"
  | dictionary as => "\x7b [key: string]: " ++ alternatives as ++ " \x7d"
  | record keys value => "Record<" ++ String.intercalate "|" keys ++ ", " ++ value ++ ">"
  | partialRecord keys value => Filter.partialRecord keys value
  | literal _ s _ => s

def names : TypeTerm → List String
  | atom a => a.names
  | array as => as.flatMap Atom.names
  | dictionary as => as.flatMap Atom.names
  | record keys value => keys ++ [value]
  | partialRecord _ value => [value]
  | literal .. => []

def named (n : String) : TypeTerm := atom (.named n)

@[simp] theorem text_named (n : String) : (named n).text = n := rfl

@[simp] theorem names_named (n : String) : (named n).names = [n] := rfl

end TypeTerm

variable {scope scope' : String → Prop}

def Spelled (scope : String → Prop) (s : String) : Prop :=
  ∃ t : TypeTerm, (s = t.text ∨ s = Text.trim t.text) ∧ ∀ n ∈ t.names, scope n

theorem Spelled.mono {s : String} (h : Spelled scope s) (hs : ∀ n, scope n → scope' n) :
    Spelled scope' s := by
  obtain ⟨t, ht, hn⟩ := h
  exact ⟨t, ht, fun n hn' => hs n (hn n hn')⟩

theorem spelled_text {t : TypeTerm} (h : ∀ n ∈ t.names, scope n) : Spelled scope t.text :=
  ⟨t, .inl rfl, h⟩

theorem spelled_name {n : String} (h : scope n) : Spelled scope n :=
  ⟨.named n, .inl rfl, by simpa using h⟩

namespace TypeUnion

/-- The tokens of the union are terms over names of a scope, and nothing else went into it. -/
def Spells (scope : String → Prop) (u : TypeUnion) : Prop :=
  ∃ ts : List TypeTerm, u = ofTokens (ts.map TypeTerm.text) ∧ ∀ t ∈ ts, ∀ n ∈ t.names, scope n

namespace Spells

variable {u : TypeUnion}

theorem empty : Spells scope .empty := ⟨[], rfl, by simp⟩

theorem mono (h : Spells scope u) (hs : ∀ n, scope n → scope' n) : Spells scope' u := by
  obtain ⟨ts, rfl, hn⟩ := h
  exact ⟨ts, rfl, fun t ht n hn' => hs n (hn t ht n hn')⟩

theorem add {t : TypeTerm} (h : Spells scope u) (ht : ∀ n ∈ t.names, scope n) :
    Spells scope (u.add t.text) := by
  obtain ⟨ts, rfl, hn⟩ := h
  refine ⟨ts ++ [t], by rw [List.map_append, List.map_cons, List.map_nil, ofTokens_append], ?_⟩
  intro t' ht'
  rcases List.mem_append.1 ht' with h' | h'
  · exact hn t' h'
  · rw [List.mem_singleton.1 h']
    exact ht

theorem add_name {n : String} (h : Spells scope u) (hn : scope n) : Spells scope (u.add n) :=
  h.add (t := .named n) (by simpa using hn)

theorem addAll_atoms {as : List Atom} (h : Spells scope u)
    (has : ∀ a ∈ as, ∀ n ∈ a.names, scope n) : Spells scope (u.addAll (as.map Atom.text)) := by
  induction as generalizing u with
  | nil => exact h
  | cons a rest ih =>
    exact ih (h.add (t := .atom a) (has a (by simp))) fun b hb => has b (List.mem_cons_of_mem _ hb)

theorem token (h : Spells scope u) {s : String} (hs : s ∈ u.tokens) : Spelled scope s := by
  obtain ⟨ts, rfl, hn⟩ := h
  obtain ⟨s', hs', rfl⟩ := mem_tokens_ofTokens hs
  obtain ⟨t, ht, rfl⟩ := List.mem_map.1 hs'
  exact ⟨t, .inr rfl, hn t ht⟩

end Spells
end TypeUnion

def Worded (scope : String → Prop) (expression : String) : Prop :=
  ∃ parts : List String, parts ≠ [] ∧ expression = String.intercalate "|" parts ∧
    ∀ s ∈ parts, Spelled scope s

namespace Worded

theorem mono {e : String} (h : Worded scope e) (hs : ∀ n, scope n → scope' n) :
    Worded scope' e := by
  obtain ⟨parts, hne, he, hp⟩ := h
  exact ⟨parts, hne, he, fun s hs' => (hp s hs').mono hs⟩

theorem of_spelled {s : String} (h : Spelled scope s) : Worded scope s :=
  ⟨[s], by simp, String.intercalate_singleton.symm, by simpa using h⟩

theorem of_spells {u : TypeUnion} (h : u.Spells scope) (hany : scope "any") :
    Worded scope u.render := by
  unfold TypeUnion.render
  split
  · exact of_spelled (spelled_name hany)
  · rename_i hne
    exact ⟨u.tokens, by simpa using hne, rfl, fun s hs => h.token hs⟩

theorem cons {s e : String} (hs : Spelled scope s) (he : Worded scope e) :
    Worded scope (s ++ "|" ++ e) := by
  obtain ⟨parts, hne, rfl, hp⟩ := he
  obtain ⟨t, rest, rfl⟩ := List.exists_cons_of_ne_nil hne
  refine ⟨s :: t :: rest, by simp, by rw [String.intercalate_cons_cons], fun x hx => ?_⟩
  rcases List.mem_cons.1 hx with rfl | hx
  · exact hs
  · exact hp x hx

end Worded
end HydraClient
