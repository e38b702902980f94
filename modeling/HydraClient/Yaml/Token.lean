import HydraClient.Yaml.Mark

/-! # Tokens of YAML

The marks and scalars of a text in order. Blocks, which the text shows by indentation only, have
tokens for where they start and end. The last token is the end of the text or a fault.
-/
namespace HydraClient.Yaml

inductive Token where
  | directive (d : Directive)
  | documentStart
  | documentEnd
  | textEnd
  | fault (f : Fault)
  | blockSequence
  | blockMapping
  | blockEnd
  | flowSequence
  | flowMapping
  | flowSequenceEnd
  | flowMappingEnd
  | blockEntry
  | flowEntry
  | key
  | value
  | alias (name : String)
  | anchor (name : String)
  | tag (handle : Option String) (text : String)
  | scalar (text : String) (isPlain : Bool)
  deriving DecidableEq, Repr

structure Cursor where
  rest : List Char
  index : Nat := 0
  line : Nat := 0
  column : Nat := 0

namespace Cursor

/-- Passes characters. A byte order mark takes no column. -/
def advance : Nat → Cursor → Cursor
  | 0, c => c
  | n + 1, c =>
    match c.rest with
    | [] => c
    | ch :: rest =>
      advance n (
        if isBreak ch then ⟨rest, c.index + 1, c.line + 1, 0⟩
        else ⟨rest, c.index + 1, c.line, if ch = '\uFEFF' then c.column else c.column + 1⟩)

def moveTo (c : Cursor) (rest : List Char) : Cursor :=
  advance (c.rest.length - rest.length) c

end Cursor
end HydraClient.Yaml
