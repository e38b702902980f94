import HydraClient.Metadata.Checked

/-! # Origins

The origin of an address is its scheme and authority. An authority may hold a numeric host in
brackets, which has to be one of version 6 or later, since its colons would end it otherwise.
-/
namespace HydraClient.Metadata.Origin

def isHexDigit (c : Char) : Bool :=
  c.isDigit || ('a' ≤ c && c ≤ 'f') || ('A' ≤ c && c ≤ 'F')

/-- Whether a text is a number below 256. A leading zero is refused, for it could mean octal. -/
def isOctet (s : List Char) : Bool :=
  match s with
  | [a] => a.isDigit
  | [a, b] => a != '0' && [a, b].all Char.isDigit
  | [a, b, c] =>
    (a == '1' && [b, c].all Char.isDigit) || (a == '2' && '0' ≤ b && b ≤ '4' && c.isDigit) ||
      (a == '2' && b == '5' && '0' ≤ c && c ≤ '5')
  | _ => false

def isDotted (s : List Char) : Bool :=
  let octets := s.splitOn '.'
  octets.length == 4 && octets.all isOctet

def isGroup (s : List Char) : Bool := !s.isEmpty && s.length ≤ 4 && s.all isHexDigit

/-- How many groups are given, when the last of them may also be an address of version 4, which
takes the room of two. -/
def countGroups? (mayEndDotted : Bool) : List (List Char) → Option Nat
  | [] => some 0
  | [g] => if isGroup g then some 1 else if mayEndDotted && isDotted g then some 2 else none
  | g :: rest => if isGroup g then (countGroups? mayEndDotted rest).map (· + 1) else none

def splitGap? : List Char → Option (List Char × List Char)
  | ':' :: ':' :: rest => some ([], rest)
  | c :: rest => (splitGap? rest).map fun (before, after) => (c :: before, after)
  | [] => none

/-- Whether a text gives the eight groups of an address of version 6. A double colon stands for at
least one of them, and may do so only once. -/
def hasEightGroups (s : List Char) : Bool :=
  let groups (t : List Char) : List (List Char) := if t.isEmpty then [] else t.splitOn ':'
  match splitGap? s with
  | none => countGroups? true (groups s) == some 8
  | some (before, after) =>
    match countGroups? false (groups before), countGroups? true (groups after) with
    | some n, some m => n + m < 8
    | _, _ => false

def isGrouped (s : List Char) : Bool :=
  let address := s.takeWhile (· != '%')
  match s.drop address.length with
  | [] => hasEightGroups address
  | _ :: zone => !zone.isEmpty && !zone.contains '%' && hasEightGroups address

def isFuture (s : List Char) : Bool :=
  match s with
  | 'v' :: rest =>
    let version := rest.takeWhile isHexDigit
    match rest.drop version.length with
    | '.' :: _ :: _ => !version.isEmpty
    | _ => false
  | _ => false

def bracketed? (host : List Char) : Option Objection :=
  if host.head? = some 'v' then if isFuture host then none else some .futureHost
  else if isDotted host then some .dottedHost
  else if isGrouped host then none
  else some (.hostNotNumeric (String.ofList host))

/-- What speaks against an authority with brackets in it. Nothing may stand between the user and the
bracket, and only a port behind it. -/
def enclosure? (authority : List Char) : Option Objection :=
  let host := (authority.reverse.takeWhile (· != '@')).reverse
  let before := host.takeWhile (· != '[')
  match host.drop before.length with
  | [] => bracketed? (host.takeWhile (· != ':'))
  | _ :: rest =>
    let inside := rest.takeWhile (· != ']')
    match before, rest.drop (inside.length + 1) with
    | [], [] | [], ':' :: _ => bracketed? inside
    | _, _ => some .bracketMisplaced

/-- Characters that compatibility normalization turns into text with a delimiter of addresses. An
authority that holds one of them could be read in two ways. -/
def hiddenDelimiters : List Nat :=
  [0x2047, 0x2048, 0x2049, 0x2100, 0x2101, 0x2105, 0x2106, 0x2A74, 0xFE13, 0xFE16, 0xFE55, 0xFE56,
    0xFE5F, 0xFE6B, 0xFF03, 0xFF0F, 0xFF1A, 0xFF1F, 0xFF20]

def objection? (authority : List Char) : Option Objection :=
  let delimited :=
    match authority.contains '[', authority.contains ']' with
    | true, true => enclosure? authority
    | false, false => none
    | _, _ => some .bracketMisplaced
  delimited <|>
    if authority.any fun c => hiddenDelimiters.contains c.toNat then
      some (.hostInTwoWays (String.ofList authority))
    else none

def isSchemeChar (c : Char) : Bool := c.isAlphanum || c == '+' || c == '-' || c == '.'

def scheme? (s : List Char) : Option (List Char × List Char) :=
  let head := s.takeWhile (· != ':')
  match s.drop head.length, head with
  | ':' :: rest, c :: _ =>
    if c.isAlpha && head.all isSchemeChar then some (head.map Char.toLower, rest) else none
  | _, _ => none

def authority (s : List Char) : List Char :=
  match s with
  | '/' :: '/' :: rest => rest.takeWhile fun c => c != '/' && c != '?' && c != '#'
  | _ => []

/-- Blanks and control characters before an address, and tabs and line breaks in it, do not
count. -/
def clean (s : List Char) : List Char :=
  (s.dropWhile fun c => c.toNat ≤ 0x20).filter fun c => c != '\t' && c != '\n' && c != '\r'

def ofUrl (url : String) : Except Objection String :=
  let s := clean url.toList
  let (scheme, rest) := (scheme? s).getD ([], s)
  let authority := authority rest
  match objection? authority with
  | some objection => .error objection
  | none =>
    if scheme.isEmpty || authority.isEmpty then .error (.notAbsolute url)
    else .ok (String.ofList scheme ++ "://" ++ String.ofList authority)

end HydraClient.Metadata.Origin
