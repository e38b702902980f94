import HydraClient.Yaml.Token

/-! # Tokens of a text

A key is known as such only by the colon behind it, so the places where one may have started are
kept, one for each open bracket and one for block text. A key stands on one line and has at most
1024 characters up to its colon.
-/
namespace HydraClient.Yaml

/-- A place where a key may have started. -/
structure PossibleKey where
  /-- How many tokens stand before it. -/
  token : Nat
  /-- Whether nothing but a key can stand there. -/
  required : Bool
  start : Cursor

structure Lexer where
  cursor : Cursor
  tokens : Array Token := #[]
  /-- The column of the innermost block. -/
  indent : Int := -1
  /-- The columns of the blocks around it. -/
  outer : List Int := []
  /-- Possible keys from the innermost bracket outwards. The last one is that of block text. -/
  keys : List (Option PossibleKey) := [none]
  keyAllowed : Bool := true

namespace Lexer

def inFlow (s : Lexer) : Bool := 1 < s.keys.length

def isStale (s : Lexer) (k : PossibleKey) : Bool :=
  k.start.line != s.cursor.line || k.start.index + 1024 < s.cursor.index

/-- How many tokens are settled: none of them can still turn out to be a key. -/
def settled (s : Lexer) : Nat :=
  s.keys.foldl (fun n k =>
    match k with
    | some k => if s.isStale k then n else min n k.token
    | none => n) s.tokens.size

end Lexer

abbrev Lexing := ExceptT Fault (StateM Lexer)

namespace Lexing

def emit (t : Token) : Lexing Unit := modify fun s => { s with tokens := s.tokens.push t }

def skip (n : Nat) : Lexing Unit := modify fun s => { s with cursor := s.cursor.advance n }

def moveTo (rest : List Char) : Lexing Unit :=
  modify fun s => { s with cursor := s.cursor.moveTo rest }

def allowKey (allowed : Bool) : Lexing Unit := modify fun s => { s with keyAllowed := allowed }

def orMalformed {α : Type} : Option α → Lexing α
  | some a => pure a
  | none => throw .malformed

def dropKey : Lexing Unit := do
  let s ← get
  match s.keys with
  | some k :: rest =>
    if k.required then throw .malformed
    set { s with keys := none :: rest }
  | _ => pure ()

def noteKey : Lexing Unit := do
  if (← get).keyAllowed then
    dropKey
    modify fun s =>
      let k : PossibleKey :=
        ⟨s.tokens.size, !s.inFlow && s.indent == Int.ofNat s.cursor.column, s.cursor⟩
      { s with keys := some k :: s.keys.tail }

def dropStaleKeys : Lexing Unit := do
  let s ← get
  if s.keys.any fun k => k.any fun k => s.isStale k && k.required then throw .malformed
  set { s with keys := s.keys.map (Option.filter fun k => !s.isStale k) }

def closeBlocks (column : Int) : Int → List Int → Array Token → Int × List Int × Array Token
  | indent, [], tokens => (indent, [], tokens)
  | indent, up :: outer, tokens =>
    if column < indent then closeBlocks column up outer (tokens.push .blockEnd)
    else (indent, up :: outer, tokens)

/-- Columns count only outside of brackets. -/
def closeTo (column : Int) : Lexing Unit :=
  modify fun s =>
    if s.inFlow then s
    else
      let (indent, outer, tokens) := closeBlocks column s.indent s.outer s.tokens
      { s with indent, outer, tokens }

/-- Starts a block at a column deeper than the innermost one. Its token stands at a place among the
tokens. -/
def openBlock (column place : Nat) (t : Token) : Lexing Unit :=
  modify fun s =>
    if s.indent < Int.ofNat column then
      { s with
        outer := s.indent :: s.outer
        indent := Int.ofNat column
        tokens := s.tokens.insertIdxIfInBounds place t }
    else s

/-- Starts a block here. An entry stands where a key may stand. -/
def openBlockHere (t : Token) : Lexing Unit := do
  let s ← get
  if !s.inFlow then
    if !s.keyAllowed then throw .malformed
    openBlock s.cursor.column s.tokens.size t

def skipBlanks : Nat → Lexing Unit
  | 0 => pure ()
  | fuel + 1 => do
    skip ((← get).cursor.rest.takeWhile (· == ' ')).length
    let c := (← get).cursor
    if c.rest.head? == some '#' then skip (c.rest.takeWhile (!isBreak ·)).length
    if (← get).cursor.rest.head?.any isBreak then
      skip 1
      if !(← get).inFlow then allowKey true
      skipBlanks fuel

/-- Takes what breaks off every block: a directive, a marker of documents, the end. -/
def breakOff : Lexing Unit := do
  closeTo (-1)
  dropKey
  allowKey false

def readDirective (rest : List Char) : Lexing Unit := do
  breakOff
  let (d, rest) ← orMalformed (directive? rest)
  emit (.directive d)
  moveTo rest

def readMarker (t : Token) : Lexing Unit := do
  breakOff
  skip 3
  emit t

/-- An opening bracket may itself be a key. -/
def openBracket (t : Token) : Lexing Unit := do
  noteKey
  modify fun s => { s with keys := none :: s.keys }
  allowKey true
  skip 1
  emit t

def closeBracket (t : Token) : Lexing Unit := do
  if !(← get).inFlow then throw .malformed
  dropKey
  modify fun s => { s with keys := s.keys.tail }
  allowKey false
  skip 1
  emit t

def readComma : Lexing Unit := do
  allowKey true
  dropKey
  skip 1
  emit .flowEntry

def readDash : Lexing Unit := do
  openBlockHere .blockSequence
  allowKey true
  dropKey
  skip 1
  emit .blockEntry

def readQuestion : Lexing Unit := do
  openBlockHere .blockMapping
  allowKey (!(← get).inFlow)
  dropKey
  skip 1
  emit .key

def readColon : Lexing Unit := do
  let s ← get
  match s.keys with
  | some k :: rest =>
    set { s with
      keys := none :: rest
      tokens := s.tokens.insertIdxIfInBounds k.token .key
      keyAllowed := false }
    if !s.inFlow then openBlock k.start.column k.token .blockMapping
  | _ =>
    openBlockHere .blockMapping
    allowKey (!s.inFlow)
    dropKey
  skip 1
  emit .value

/-- Takes a mark or scalar of flow text, which may be a key. -/
def readMark (read : Except Fault (Token × List Char)) : Lexing Unit := do
  noteKey
  allowKey false
  let (t, rest) ← ofExcept read
  emit t
  moveTo rest

def named (make : String → Token) (rest : List Char) : Except Fault (Token × List Char) :=
  match anchorName? rest with
  | some (name, rest) => .ok (make name, rest)
  | none => .error .malformed

def tagged (rest : List Char) : Except Fault (Token × List Char) :=
  match tagMark? rest with
  | some (handle, text, rest) => .ok (.tag handle text, rest)
  | none => .error .malformed

def quotedScalar (read : Nat → List Char → List Char → Except Fault (String × List Char))
    (rest : List Char) : Except Fault (Token × List Char) :=
  (read (rest.length + 1) [] rest).map fun (text, rest) => (.scalar text false, rest)

/-- A plain scalar that ends its line lets a key start on the next one. -/
def readPlain : Lexing Unit := do
  let s ← get
  let (text, rest) := plain s.inFlow (s.indent + 1) s.cursor.rest
  readMark (.ok (.scalar text true, rest))
  if (rest.dropWhile (· == ' ')).head?.any isBreak then allowKey true

def readBlockScalar (folded : Bool) (rest : List Char) : Lexing Unit := do
  allowKey true
  dropKey
  let (text, rest) ← orMalformed (blockScalar folded (← get).indent rest)
  emit (.scalar text false)
  moveTo rest

def startsPlain (inFlow : Bool) (c : Char) (rest : List Char) : Bool :=
  if isGap c then false
  else if "-?:,[]\x7b\x7d#&*!|>'\"%@`".toList.contains c then
    !startsGap rest && (c == '-' || (!inFlow && (c == '?' || c == ':')))
  else true

def readToken (c : Char) (rest : List Char) : Lexing Unit := do
  let inFlow := (← get).inFlow
  let stands := inFlow || startsGap rest
  match c with
  | '[' => openBracket .flowSequence
  | '\x7b' => openBracket .flowMapping
  | ']' => closeBracket .flowSequenceEnd
  | '\x7d' => closeBracket .flowMappingEnd
  | ',' => readComma
  | '*' => readMark (named .alias rest)
  | '&' => readMark (named .anchor rest)
  | '!' => readMark (tagged rest)
  | '\'' => readMark (quotedScalar singleQuoted rest)
  | '"' => readMark (quotedScalar doubleQuoted rest)
  | _ =>
    if c = '-' && startsGap rest then readDash
    else if c = '?' && stands then readQuestion
    else if c = ':' && stands then readColon
    else if (c = '|' || c = '>') && !inFlow then readBlockScalar (c == '>') rest
    else if startsPlain inFlow c rest then readPlain
    else throw .malformed

/-- Takes the next token and tells whether another may follow. -/
def readNext : Lexing Bool := do
  skipBlanks ((← get).cursor.rest.length + 1)
  dropStaleKeys
  let c := (← get).cursor
  closeTo c.column
  match c.rest with
  | [] =>
    breakOff
    emit .textEnd
    return false
  | ch :: rest =>
    if ch = '%' && c.column = 0 then readDirective rest
    else if c.column = 0 && isMarker c.rest then
      readMarker (if ch = '-' then .documentStart else .documentEnd)
    else readToken ch rest
    return true

/-- Every token takes a character at least. A fault stands behind the settled tokens. -/
def readAll : Nat → Lexer → Array Token
  | 0, s => s.tokens.push (.fault .malformed)
  | fuel + 1, s =>
    let settled := s.settled
    match readNext.run.run s with
    | (.error f, s) => (s.tokens.take settled).push (.fault f)
    | (.ok false, s) => s.tokens
    | (.ok true, s) => readAll fuel s

end Lexing

/-- The tokens of a text. A byte order mark at its start is no part of it. -/
def Token.ofText (text : String) : List Token :=
  let cs := text.toList
  if !cs.all isAllowed then [.fault .malformed]
  else
    let start := match cs with
      | '\uFEFF' :: rest => ⟨rest, 1, 0, 0⟩
      | _ => ⟨cs, 0, 0, 0⟩
    (Lexing.readAll (cs.length + 1) { cursor := start }).toList

end HydraClient.Yaml
