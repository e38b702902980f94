import HydraClient.Yaml.Fault

/-! # Text of YAML scalars

Quoted scalars, plain scalars over several lines, and block scalars. Every reader takes the text
from the scalar on and gives back the rest. A line break between words folds into a space, and
further breaks stay.
-/
namespace HydraClient.Yaml

def isBreak (c : Char) : Bool := c == '\n' || c == '\x85' || c == '\u2028' || c == '\u2029'

/-- Next line counts as a line feed; the separators of lines and paragraphs stay. -/
def breakText (c : Char) : Char := if c = '\x85' then '\n' else c

def isGap (c : Char) : Bool := c == ' ' || c == '\t' || isBreak c

def startsGap (s : List Char) : Bool := s.head?.all isGap

def isMarker : List Char → Bool
  | '-' :: '-' :: '-' :: rest => startsGap rest
  | '.' :: '.' :: '.' :: rest => startsGap rest
  | _ => false

/-- Characters that may occur in a document at all. -/
def isAllowed (c : Char) : Bool :=
  let n := c.toNat
  n == 9 || n == 10 || n == 13 || (0x20 ≤ n && n ≤ 0x7E) || n == 0x85 ||
    (0xA0 ≤ n && n ≤ 0xFFFD) || 0x10000 ≤ n

/-- The line breaks at the start of a text, gaps between them dropped. No marker may follow one. -/
def quotedBreaks : Nat → List Char → Option (List Char × List Char)
  | 0, _ => none
  | fuel + 1, s =>
    if isMarker s then none
    else
      let s := s.dropWhile fun c => c == ' ' || c == '\t'
      match s with
      | c :: rest =>
        if isBreak c then (quotedBreaks fuel rest).map fun (bs, r) => (breakText c :: bs, r)
        else some ([], s)
      | [] => some ([], [])

/-- What a gap between words of a quoted scalar stands for. -/
def quotedGap (s : List Char) : Option (List Char × List Char) :=
  let blanks := s.takeWhile fun c => c == ' ' || c == '\t'
  match s.drop blanks.length with
  | [] => none
  | c :: rest =>
    if !isBreak c then some (blanks, c :: rest)
    else do
      let (bs, r) ← quotedBreaks (rest.length + 1) rest
      let first := breakText c
      if first != '\n' then pure (first :: bs, r)
      else pure (if bs.isEmpty then ([' '], r) else (bs, r))

def singleQuoted : Nat → List Char → List Char → Except Fault (String × List Char)
  | 0, _, _ => .error .malformed
  | _ + 1, _, [] => .error .malformed
  | fuel + 1, acc, c :: rest =>
    if c = '\'' then
      match rest with
      | '\'' :: more => singleQuoted fuel ('\'' :: acc) more
      | _ => .ok (String.ofList acc.reverse, rest)
    else if isGap c then
      match quotedGap (c :: rest) with
      | some (gap, more) => singleQuoted fuel (gap.reverse ++ acc) more
      | none => .error .malformed
    else singleQuoted fuel (c :: acc) rest

def escape? : Char → Option Char
  | '0' => some '\x00'
  | 'a' => some '\x07'
  | 'b' => some '\x08'
  | 't' => some '\t'
  | '\t' => some '\t'
  | 'n' => some '\n'
  | 'v' => some '\x0b'
  | 'f' => some '\x0c'
  | 'r' => some '\r'
  | 'e' => some '\x1b'
  | ' ' => some ' '
  | '"' => some '"'
  | '\\' => some '\\'
  | '/' => some '/'
  | 'N' => some '\x85'
  | '_' => some '\xa0'
  | 'L' => some '\u2028'
  | 'P' => some '\u2029'
  | _ => none

def codeWidth? : Char → Option Nat
  | 'x' => some 2
  | 'u' => some 4
  | 'U' => some 8
  | _ => none

def digitOf? (c : Char) : Option Nat :=
  if c.isDigit then some (c.toNat - 48)
  else if 'a' ≤ c ∧ c ≤ 'f' then some (c.toNat - 87)
  else if 'A' ≤ c ∧ c ≤ 'F' then some (c.toNat - 55)
  else none

def hexNumber? (s : List Char) : Option Nat :=
  s.foldlM (fun n c => (digitOf? c).map (n * 16 + ·)) 0

/-- The character of an escape by number. The halves of a surrogate pair are not joined. -/
def numbered (width : Nat) (s : List Char) : Except Fault Char :=
  match hexNumber? (s.take width) with
  | none => .error .malformed
  | some n =>
    if (s.take width).length < width then .error .malformed
    else if n.isValidChar then .ok (Char.ofNat n)
    else if 0x10FFFF < n then .error (.beyondUnicode n)
    else .error (.surrogate n)

def doubleQuoted : Nat → List Char → List Char → Except Fault (String × List Char)
  | 0, _, _ => .error .malformed
  | _ + 1, _, [] => .error .malformed
  | fuel + 1, acc, c :: rest =>
    if c = '"' then .ok (String.ofList acc.reverse, rest)
    else if c = '\\' then
      match rest with
      | [] => .error .malformed
      | e :: more =>
        match escape? e, codeWidth? e with
        | some d, _ => doubleQuoted fuel (d :: acc) more
        | none, some width =>
          match numbered width more with
          | .ok d => doubleQuoted fuel (d :: acc) (more.drop width)
          | .error f => .error f
        | none, none =>
          if isBreak e then
            match quotedBreaks (more.length + 1) more with
            | some (bs, r) => doubleQuoted fuel (bs.reverse ++ acc) r
            | none => .error .malformed
          else .error .malformed
    else if isGap c then
      match quotedGap (c :: rest) with
      | some (gap, more) => doubleQuoted fuel (gap.reverse ++ acc) more
      | none => .error .malformed
    else doubleQuoted fuel (c :: acc) rest

/-- Whether a colon before the given text ends a plain word. -/
def colonEnds (flow : Bool) (s : List Char) : Bool :=
  startsGap s || (flow && s.head?.any (",[]\x7b\x7d".toList.contains ·))

def plainLength (flow : Bool) : List Char → Nat
  | [] => 0
  | c :: rest =>
    if isGap c || (c == ':' && colonEnds flow rest) ||
        (flow && ",?[]\x7b\x7d".toList.contains c) then 0
    else plainLength flow rest + 1

/-- Line breaks and spaces after the first break of a plain scalar: the breaks, the column reached
and the rest. Gives up at a marker. -/
def plainBreaks : Nat → Nat → List Char → Option (List Char × Nat × List Char)
  | 0, _, _ => none
  | fuel + 1, column, s =>
    if column = 0 && isMarker s then none
    else match s with
      | ' ' :: rest => plainBreaks fuel (column + 1) rest
      | c :: rest =>
        if isBreak c then
          (plainBreaks fuel 0 rest).map fun (bs, column, r) => (breakText c :: bs, column, r)
        else some ([], column, s)
      | [] => some ([], column, [])

/-- The words of a plain scalar after `acc`. In block text, further lines are indented by `indent`
at least. Gives the rest right after the scalar. -/
def plainWords (flow : Bool) (indent : Int) : Nat → List Char → List Char → List Char × List Char
  | 0, acc, s => (acc, s)
  | fuel + 1, acc, s =>
    let n := plainLength flow s
    if n = 0 then (acc, s)
    else
      let acc := (s.take n).reverse ++ acc
      let after := s.drop n
      let spaces := after.takeWhile (· == ' ')
      let continueWith (gap : List Char) (r : List Char) : List Char × List Char :=
        if r.head? == some '#' || plainLength flow r = 0 then (acc, after)
        else plainWords flow indent fuel (gap.reverse ++ acc) r
      match after.drop spaces.length with
      | [] => (acc, after)
      | c :: rest =>
        if isBreak c then
          match plainBreaks (rest.length + 1) 0 rest with
          | none => (acc, after)
          | some (bs, column, r) =>
            if !flow && Int.ofNat column < indent then (acc, after)
            else
              let first := breakText c
              let gap := if first != '\n' then first :: bs else if bs.isEmpty then [' '] else bs
              continueWith gap r
        else if spaces.isEmpty then (acc, after)
        else continueWith spaces (c :: rest)

def plain (flow : Bool) (indent : Int) (s : List Char) : String × List Char :=
  let (acc, rest) := plainWords flow indent (s.length + 1) [] s
  (String.ofList acc.reverse, rest)

def endOfLine? (s : List Char) : Option (List Char) :=
  let s := s.dropWhile (· == ' ')
  let s := if s.head? == some '#' then s.dropWhile (!isBreak ·) else s
  match s with
  | [] => some []
  | b :: rest => if isBreak b then some rest else none

/-- How a block scalar ends: with its last break, without it, or with all that follow. -/
inductive Chomping where
  | clip
  | strip
  | keep
  deriving DecidableEq, Repr

/-- The indicators after the bar or angle of a block scalar, in either order. A comment may follow
after a space. -/
def blockHeader (s : List Char) : Option (Chomping × Option Nat × List Char) :=
  let chomp (s : List Char) : Chomping × List Char :=
    match s with
    | '+' :: r => (.keep, r)
    | '-' :: r => (.strip, r)
    | _ => (.clip, s)
  let digit (s : List Char) : Option (Option Nat × List Char) :=
    match s with
    | c :: r => if c.isDigit then
        (if c = '0' then none else some (some (c.toNat - 48), r)) else some (none, s)
    | [] => some (none, s)
  let (c, s₁) := chomp s
  do
    let (d, s₂) ← digit s₁
    let (c, s₂) := if c = .clip && s₁ = s then chomp s₂ else (c, s₂)
    match endOfLine? s₂ with
    | some r => if s₂.head? == some '#' then none else pure (c, d, r)
    | none => none

def leadingBreaks : Nat → Nat → List Char → List Char × Nat × Nat × List Char
  | deepest, column, ' ' :: rest => leadingBreaks (max deepest (column + 1)) (column + 1) rest
  | deepest, column, c :: rest =>
    if isBreak c then
      let (bs, d, col, r) := leadingBreaks deepest 0 rest
      (breakText c :: bs, d, col, r)
    else ([], deepest, column, c :: rest)
  | deepest, column, [] => ([], deepest, column, [])

/-- Blank lines of a block scalar whose lines start at `indent`. -/
def blockBreaks (indent : Nat) : Nat → List Char → List Char × Nat × List Char
  | column, c :: rest =>
    if c = ' ' && column < indent then blockBreaks indent (column + 1) rest
    else if isBreak c then
      let (bs, col, r) := blockBreaks indent 0 rest
      (breakText c :: bs, col, r)
    else ([], column, c :: rest)
  | column, [] => ([], column, [])

def blockLines (folded : Bool) (indent : Nat) : Nat → List Char → List Char → List Char →
    List Char × List Char × List Char × List Char
  | 0, acc, breaks, s => (acc, [], breaks, s)
  | fuel + 1, acc, breaks, s =>
    let isText (t : List Char) : Bool := t.head?.any fun c => c != ' ' && c != '\t'
    let line := s.takeWhile (!isBreak ·)
    let acc := line.reverse ++ (breaks.reverse ++ acc)
    match s.drop line.length with
    | [] => (acc, [], [], [])
    | c :: rest =>
      let last := breakText c
      let (bs, column, r) := blockBreaks indent 0 rest
      if column = indent && !r.isEmpty then
        let acc :=
          if folded && last = '\n' && isText s && isText r then
            (if bs.isEmpty then ' ' :: acc else acc)
          else last :: acc
        blockLines folded indent fuel acc bs r
      else (acc, [last], bs, r)

/-- A block scalar after its bar or angle, inside a block at column `parent`. Also gives the column
at which reading stopped. -/
def blockScalar (folded : Bool) (parent : Int) (s : List Char) : Option (String × List Char) := do
  let (chomping, increment, body) ← blockHeader s
  let least := (max 1 (parent + 1)).toNat
  let (breaks, indent, column, r) :=
    match increment with
    | some n =>
      let indent := least + n - 1
      let (bs, column, r) := blockBreaks indent 0 body
      (bs, indent, column, r)
    | none =>
      let (bs, deepest, column, r) := leadingBreaks 0 0 body
      (bs, max least deepest, column, r)
  let (acc, last, breaks, rest) :=
    if column = indent && !r.isEmpty then blockLines folded indent (r.length + 1) [] breaks r
    else ([], [], breaks, r)
  let tail := match chomping with
    | .strip => []
    | .clip => last
    | .keep => last ++ breaks
  pure (String.ofList (acc.reverse ++ tail), rest)

end HydraClient.Yaml
