import HydraClient.Text.Utf8
import HydraClient.Yaml.Text

/-! # Marks of YAML

The texts of anchors and aliases, of tags and of directives. A reader takes the text after the
first character of the mark and gives back the rest.
-/
namespace HydraClient.Yaml

def isNameChar (c : Char) : Bool := c.isAlphanum || c == '-' || c == '_'

/-- Whether a word ends before the given text: at a space, a line break or the end. -/
def endsWord (s : List Char) : Bool := s.head?.all fun c => c == ' ' || isBreak c

def anchorName? (s : List Char) : Option (String × List Char) :=
  let name := s.takeWhile isNameChar
  let rest := s.drop name.length
  if name.isEmpty then none
  else if startsGap rest || rest.head?.any ("?:,]\x7d%@`".toList.contains ·) then
    some (String.ofList name, rest)
  else none

def percentBytes : List Char → Option (List UInt8 × List Char)
  | '%' :: a :: b :: rest => do
    let a ← digitOf? a
    let b ← digitOf? b
    let (bytes, rest) ← percentBytes rest
    pure ((a * 16 + b).toUInt8 :: bytes, rest)
  | '%' :: _ => none
  | s => some ([], s)

def isTagChar (c : Char) : Bool := c.isAlphanum || "-;/?:@&=+$,_.!~*'()[]%".toList.contains c

/-- The characters of a tag, in which a run of percent signs stands for UTF-8. -/
def tagChars : Nat → List Char → Option (List Char × List Char)
  | 0, _ => none
  | fuel + 1, s =>
    match s with
    | '%' :: _ => do
      let (bytes, rest) ← percentBytes s
      let chars ← (Text.decodeUtf8 ⟨bytes.toArray⟩).toOption
      let (more, rest) ← tagChars fuel rest
      pure (chars.toList ++ more, rest)
    | c :: rest =>
      if isTagChar c then (tagChars fuel rest).map fun (more, r) => (c :: more, r)
      else some ([], s)
    | [] => some ([], [])

/-- The text of a tag, which is not empty as written. -/
def tagText? (s : List Char) : Option (String × List Char) := do
  let (chars, rest) ← tagChars (s.length + 1) s
  if rest.length < s.length then pure (String.ofList chars, rest) else none

/-- A handle after its first mark: a name between two marks, or one mark alone before a space. -/
def handle? (s : List Char) : Option (String × List Char) :=
  if s.head? == some ' ' then some ("!", s)
  else
    let name := s.takeWhile isNameChar
    match s.drop name.length with
    | '!' :: rest => some ("!" ++ String.ofList name ++ "!", rest)
    | _ => none

/-- The handle and the rest of a tag. A tag in angle brackets and the lone mark have no handle. -/
def tagMark? (s : List Char) : Option (Option String × String × List Char) := do
  let (handle, text, rest) ←
    match s with
    | '<' :: body => do
      let (text, rest) ← tagText? body
      match rest with
      | '>' :: rest => pure (none, text, rest)
      | _ => none
    | _ =>
      if startsGap s then pure (none, "!", s)
      else do
        let word := s.takeWhile fun c => !(c == ' ' || isBreak c)
        let (handle, body) ← if word.contains '!' then handle? s else pure ("!", s)
        let (text, rest) ← tagText? body
        pure (some handle, text, rest)
  if endsWord rest then pure (handle, text, rest) else none

inductive Directive where
  | version (major : Nat)
  | handle (name start : String)
  /-- A directive without effect. -/
  | other
  deriving DecidableEq, Repr

def number? (s : List Char) : Option (Nat × List Char) :=
  let ds := s.takeWhile Char.isDigit
  if ds.isEmpty then none
  else some (ds.foldl (fun n c => n * 10 + (c.toNat - 48)) 0, s.drop ds.length)

def versionDirective? (s : List Char) : Option (Directive × List Char) := do
  let (major, rest) ← number? (s.dropWhile (· == ' '))
  match rest with
  | '.' :: rest => do
    let (_, rest) ← number? rest
    if endsWord rest then pure (.version major, rest) else none
  | _ => none

def handleDirective? (s : List Char) : Option (Directive × List Char) :=
  match s.dropWhile (· == ' ') with
  | '!' :: rest => do
    let (name, rest) ← handle? rest
    if rest.head? != some ' ' then none
    else do
      let (start, rest) ← tagText? (rest.dropWhile (· == ' '))
      if endsWord rest then pure (.handle name start, rest) else none
  | _ => none

def directive? (s : List Char) : Option (Directive × List Char) := do
  let name := s.takeWhile isNameChar
  let rest := s.drop name.length
  if name.isEmpty || !endsWord rest then none
  else do
    let (d, rest) ← match String.ofList name with
      | "YAML" => versionDirective? rest
      | "TAG" => handleDirective? rest
      | _ => pure (.other, rest.dropWhile (!isBreak ·))
    pure (d, ← endOfLine? rest)

end HydraClient.Yaml
