import HydraClient.Text.Blank

/-! # Type expressions

An expression is an alternation of tokens at its top level. Bars inside brackets of any kind or
inside quotes belong to their token. A union is the ordered set of such tokens, and the empty union
stands for the unconstrained type.
-/
namespace HydraClient

namespace TypeExpr

/-- Where a scan stands: the bracket depth, which may turn negative, and the open quote. -/
structure Nesting where
  depth : Int := 0
  quote : Option Char := none
  deriving DecidableEq, Repr

def isOpening (c : Char) : Bool := c == '<' || c == '(' || c == '\x7b' || c == '['

def isClosing (c : Char) : Bool := c == '>' || c == ')' || c == '\x7d' || c == ']'

namespace Nesting

def isTop (n : Nesting) : Bool := n.depth == 0 && n.quote.isNone

def step (n : Nesting) (c : Char) : Nesting :=
  match n.quote with
  | some q => if c = q then { n with quote := none } else n
  | none =>
    if c = '"' || c = '\'' then { n with quote := some c }
    else if isOpening c then { n with depth := n.depth + 1 }
    else if isClosing c then { n with depth := n.depth - 1 }
    else n

end Nesting

/-- The stretches between top-level bars, from a nesting on. There is always at least one. -/
def stretches (n : Nesting) : List Char → List (List Char)
  | [] => [[]]
  | c :: rest =>
    if c = '|' && n.isTop then [] :: stretches n rest
    else match stretches (n.step c) rest with
      | [] => [[c]]
      | s :: more => (c :: s) :: more

def splitChars (s : List Char) : List (List Char) :=
  ((stretches {} s).map (Text.trimWhere Text.isBlank)).filter (!·.isEmpty)

def split (expression : String) : List String :=
  (splitChars expression.toList).map String.ofList

end TypeExpr

structure TypeUnion where
  tokens : List String := []
  distinct : tokens.Nodup := by simp
  deriving DecidableEq, Repr

namespace TypeUnion

def empty : TypeUnion := {}

instance : Inhabited TypeUnion := ⟨empty⟩

def push (u : TypeUnion) (token : String) : TypeUnion :=
  if h : token ∈ u.tokens then u
  else {
    tokens := u.tokens ++ [token]
    distinct := by
      rw [List.nodup_append]
      refine ⟨u.distinct, by simp, fun a ha b hb => ?_⟩
      rw [List.mem_singleton] at hb
      subst hb
      exact fun e => h (e ▸ ha) }

/-- Adds a token after trimming it; a blank one is ignored. -/
def add (u : TypeUnion) (token : String) : TypeUnion :=
  let t := Text.trim token
  if t = "" then u else u.push t

def addAll (u : TypeUnion) (tokens : List String) : TypeUnion := tokens.foldl add u

def addExpression (u : TypeUnion) (expression : String) : TypeUnion :=
  u.addAll (TypeExpr.split expression)

def ofTokens (tokens : List String) : TypeUnion := empty.addAll tokens

def parse (expression : String) : TypeUnion := ofTokens (TypeExpr.split expression)

theorem ofTokens_append (ts : List String) (t : String) :
    ofTokens (ts ++ [t]) = (ofTokens ts).add t := by
  simp [ofTokens, addAll]

theorem mem_tokens_add {u : TypeUnion} {t x : String} (h : x ∈ (u.add t).tokens) :
    x ∈ u.tokens ∨ x = Text.trim t := by
  simp only [add, push] at h
  split at h
  · exact .inl h
  · split at h
    · exact .inl h
    · simpa using h

theorem mem_tokens_addAll {u : TypeUnion} {ts : List String} {x : String}
    (h : x ∈ (u.addAll ts).tokens) : x ∈ u.tokens ∨ ∃ t ∈ ts, x = Text.trim t := by
  induction ts generalizing u with
  | nil => exact .inl h
  | cons t rest ih =>
    rcases ih h with h | ⟨t', ht', rfl⟩
    · rcases mem_tokens_add h with h | rfl
      · exact .inl h
      · exact .inr ⟨t, by simp, rfl⟩
    · exact .inr ⟨t', by simp [ht'], rfl⟩

theorem mem_tokens_ofTokens {ts : List String} {x : String} (h : x ∈ (ofTokens ts).tokens) :
    ∃ t ∈ ts, x = Text.trim t :=
  (mem_tokens_addAll h).resolve_left (by simp [empty])

def isEmpty (u : TypeUnion) : Bool := u.tokens.isEmpty

def contains (u : TypeUnion) (token : String) : Bool := u.tokens.contains token

def render (u : TypeUnion) : String :=
  if u.tokens.isEmpty then "any" else String.intercalate "|" u.tokens

/-- The expression that accepts one value or an array of values. -/
def widened (u : TypeUnion) : String :=
  let base := u.render
  base ++ "|Array<" ++ base ++ ">"

end TypeUnion
end HydraClient
