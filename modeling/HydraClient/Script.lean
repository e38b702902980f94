import HydraClient.Failure

/-! # Pieces of TypeScript text -/
namespace HydraClient.Script

def isIdentifierStart (c : Char) : Bool := c.isAlpha || c == '_' || c == '$'

def isIdentifierChar (c : Char) : Bool := isIdentifierStart c || c.isDigit

def isIdentifier (s : String) : Bool :=
  match s.toList with
  | [] => false
  | c :: rest =>
    let rest := if rest.getLast? = some '\n' then rest.dropLast else rest
    isIdentifierStart c && rest.all isIdentifierChar

/-- A property key: bare when it can be, in quotes otherwise. -/
def propertyKey (name : String) : String :=
  if isIdentifier name then name else Json.quote name

def written (form : Json → String) (v : Json) : Except Failure String :=
  (v.written form).mapError .unwritable

def literal : Json → Except Failure String := written Json.compact

def block : Json → Except Failure String := written Json.pretty

theorem written_ok_iff {form : Json → String} {v : Json} {t : String} :
    written form v = .ok t ↔ v.unwritable? = none ∧ form v = t := by
  unfold written Json.written
  cases v.unwritable? with
  | none => exact ⟨fun h => ⟨rfl, Except.ok.inj h⟩, fun h => congrArg Except.ok h.2⟩
  | some reason => exact ⟨fun h => (nomatch h), fun h => (nomatch h.1)⟩

theorem written_error_iff {form : Json → String} {v : Json} {e : Failure} :
    written form v = .error e ↔ ∃ reason, v.unwritable? = some reason ∧ e = .unwritable reason := by
  unfold written Json.written
  cases v.unwritable? with
  | none => exact ⟨fun h => (nomatch h), fun ⟨_, h, _⟩ => (nomatch h)⟩
  | some reason =>
    refine ⟨fun h => ⟨reason, rfl, (Except.error.inj h).symm⟩, ?_⟩
    rintro ⟨_, h, rfl⟩
    exact congrArg (fun r => Except.error (Failure.unwritable r)) (Option.some.inj h)

def stringArray (values : List String) : String := (Json.arr (values.map .str)).compact

def literalUnion (values : List String) : String :=
  String.intercalate "|" (values.map Json.quote)

end HydraClient.Script
