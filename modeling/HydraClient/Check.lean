import HydraClient.ClassName
import HydraClient.Metadata.Document
import HydraClient.OperationKind

/-! # Checks across a document

What no declaration can tell of itself: classes and routes described twice, references that lead
nowhere, filters where no list is asked for, and placeholders of routes that are not well formed.
-/
namespace HydraClient

open Metadata

inductive Severity where
  | error
  | warning
  deriving DecidableEq, Repr

structure Finding where
  severity : Severity
  code : String
  message : String
  context : List (String × Json) := []

namespace Finding

def isError (f : Finding) : Bool := f.severity == .error

def text (f : Finding) : String :=
  "[" ++ (if f.isError then "ERROR" else "WARNING") ++ "] " ++ f.code ++ ": " ++ f.message

def error (code message : String) (context : List (String × Json) := []) : Finding :=
  ⟨.error, code, message, context⟩

def warning (code message : String) (context : List (String × Json) := []) : Finding :=
  ⟨.warning, code, message, context⟩

end Finding

structure Verdict where
  findings : List Finding := []

namespace Verdict

def errors (v : Verdict) : List Finding := v.findings.filter (·.isError)

def warnings (v : Verdict) : List Finding := v.findings.filter (!·.isError)

def hasErrors (v : Verdict) : Bool := v.findings.any (·.isError)

/-- Warnings alone do not spoil a document. -/
def isValid (v : Verdict) : Bool := !v.hasErrors

def codes (v : Verdict) : List String := v.findings.map (·.code)

def add (v : Verdict) (f : Finding) : Verdict := ⟨v.findings ++ [f]⟩

def merge (v w : Verdict) : Verdict := ⟨v.findings ++ w.findings⟩

def summary (v : Verdict) : String :=
  s!"Validation: {v.errors.length} error(s), {v.warnings.length} warning(s)."

def report (v : Verdict) : String :=
  String.intercalate "\n" (v.summary :: v.findings.map fun f =>
    "  " ++ (if f.isError then "❌" else "⚠️") ++ " [" ++ f.code ++ "] " ++ f.message)

end Verdict

namespace Check

def repeats (seen : List String) : List String → List (String × Bool)
  | [] => []
  | n :: rest => (n, seen.contains n) :: repeats (n :: seen) rest

def classNames (d : Document) : Verdict :=
  let names := (d.classes.map (·.className) ++ d.enums.map (·.className)).map ClassName.relative
  ⟨((repeats [] names).filter (·.2)).map fun (key, _) =>
    .error "DUPLICATE_CLASS" s!"Class '{key}' is described more than once."
      [("class", .str key)]⟩

def link (described : List String) (owner : String) (u : UriVariable) : List Finding :=
  match u.fromClass with
  | none => []
  | some target =>
    if target = "" || described.contains (ClassName.relative target) then []
    else [.warning "UNDESCRIBED_LINK_CLASS"
      (s!"{owner}: URI variable '{u.parameter}' links to " ++ s!"undescribed class '{target}'.")
      [("class", .str owner), ("link", .str u.parameter)]]

def label (o : Operation) : String :=
  let orElse (s : Option String) (t : String) : String :=
    match s with
    | some s => if s = "" then t else s
    | none => t
  orElse o.name (orElse o.type o.method)

def operation (filterIds : List String) (owner : String) (o : Operation) : List Finding :=
  let context : List (String × Json) := [("class", .str owner), ("operation", .str (label o))]
  let unknown := (o.filters.filter (!filterIds.contains ·)).map fun id =>
    Finding.error "UNKNOWN_FILTER" s!"{owner}: operation references unknown filter '{id}'."
      (context ++ [("filter", .str id)])
  let misplaced :=
    if o.filters.isEmpty then []
    else match OperationKind.ofOperation o with
      | .error f => [.error "UNKNOWN_OPERATION_KIND" f.faultText context]
      | .ok .list => []
      | .ok k =>
        [.warning "FILTERS_ON_NON_LIST" s!"{owner}: filters on a '{k.word}' operation are ignored."
          context]
  unknown ++ misplaced

def operations (d : Document) : Verdict :=
  let filterIds := d.filters.map (·.id)
  let described := d.classes.map fun c => ClassName.relative c.className
  ⟨d.classes.flatMap fun c => c.exposures.flatMap fun e =>
    e.uriVariables.flatMap (link described c.className) ++
      e.operations.flatMap (operation filterIds c.className)⟩

/-- The text up to a closing brace, if no other brace comes before it. -/
def closing? : List Char → Option (List Char × List Char)
  | [] => none
  | '\x7d' :: rest => some ([], rest)
  | '\x7b' :: _ => none
  | c :: rest => (closing? rest).map fun (inside, after) => (c :: inside, after)

def placeholders : Nat → List Char → List (List Char) × List Char
  | 0, s => ([], s)
  | _ + 1, [] => ([], [])
  | fuel + 1, c :: rest =>
    let skip := fun _ : Unit =>
      let (ps, left) := placeholders fuel rest
      (ps, c :: left)
    if c = '\x7b' then
      match closing? rest with
      | some (inside, after) =>
        let (ps, left) := placeholders fuel after
        (inside :: ps, left)
      | none => skip ()
    else skip ()

/-- A name, and a requirement in angle brackets if any. One line feed at the end is overlooked. -/
def isPlaceholder (s : List Char) : Bool :=
  let s := if s.getLast? = some '\n' then s.dropLast else s
  match s with
  | [] => false
  | c :: rest =>
    let name := rest.takeWhile fun c => c.isAlphanum || c == '_'
    let tail := rest.drop name.length
    (c.isAlpha || c == '_') &&
      match tail with
      | [] => true
      | '<' :: body => 1 < body.length && body.getLast? == some '>' && !body.dropLast.contains '\n'
      | _ => false

def route (r : Route) (again : Bool) : List Finding :=
  let context : List (String × Json) := [("route", .str r.name), ("path", .str r.path)]
  let cs := r.path.toList
  let (inside, outside) := placeholders cs.length cs
  let twice :=
    if again then
      [Finding.error "DUPLICATE_ROUTE" s!"Route '{r.name}' is defined more than once." context]
    else []
  let braces :=
    if outside.contains '\x7b' || outside.contains '\x7d' then
      [Finding.error "BAD_ROUTE_PLACEHOLDER"
        s!"Route '{r.name}' has unbalanced braces in '{r.path}'." context]
    else (inside.filter (!isPlaceholder ·)).map fun p =>
      let shown := String.ofList p
      .error "BAD_ROUTE_PLACEHOLDER"
        (s!"Route '{r.name}' has an invalid placeholder '" ++ "\x7b" ++ shown ++ "\x7d'.")
        (context ++ [("placeholder", .str shown)])
  twice ++ braces

def routes (d : Document) : Verdict :=
  let marks := (repeats [] (d.routes.map (·.name))).map (·.2)
  ⟨(d.routes.zip marks).flatMap fun (r, again) => route r again⟩

def config (d : Document) : Verdict :=
  ⟨if d.config.namespaces.isEmpty then
    [.warning "EMPTY_NAMESPACES" "No namespaces configured; no resource will be generated."]
  else []⟩

end Check

def Metadata.Document.verdict (d : Document) : Verdict :=
  (((Check.classNames d).merge (Check.operations d)).merge (Check.routes d)).merge (Check.config d)

end HydraClient
