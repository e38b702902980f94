import HydraClient.Text.LetterCase

/-! # Words of a name

Names in any casing style are cut into words at every character that is no ASCII letter or digit
and at the humps of camel case, and are put together again as snake, kebab or constant names.
-/
namespace HydraClient.Text

def isNameChar (c : Char) : Bool := c.isAlphanum

/-- The rest of a run of capitals may end a word only before a new word, a digit or a gap. -/
def endsCapitals : List Char → Bool
  | [] => true
  | a :: b :: _ => (a.isUpper && b.isLower) || a.isDigit || !isNameChar a
  | [a] => a.isDigit || !isNameChar a

/-- How many capitals of a run of `n` form one word: the most after which the word may end. -/
def capitalsTaken : Nat → List Char → Nat
  | 0, _ => 0
  | n + 1, s => if endsCapitals (s.drop (n + 1)) then n + 1 else capitalsTaken n s

/-- The length of the word at the start of a text, zero where no word starts. -/
def wordLength (s : List Char) : Nat :=
  match s with
  | [] => 0
  | c :: rest =>
    if c.isLower then (s.takeWhile Char.isLower).length
    else if c.isUpper then
      let tail := (rest.takeWhile Char.isLower).length
      if 0 < tail then tail + 1
      else
        let n := capitalsTaken (s.takeWhile Char.isUpper).length s
        if n = 0 then 1 else n
    else if c.isDigit then (s.takeWhile Char.isDigit).length
    else 0

def wordsOf : Nat → List Char → List (List Char)
  | 0, _ => []
  | _ + 1, [] => []
  | fuel + 1, s@(_ :: rest) =>
    match wordLength s with
    | 0 => wordsOf fuel rest
    | n => s.take n :: wordsOf fuel (s.drop n)

def words (name : String) : List String :=
  (wordsOf name.toList.length name.toList).map fun w => String.ofList (w.map Char.toLower)

/-- Parts a run of capitals from a capitalised word behind it. `run` tells that a capital precedes
in the same run. -/
def partCapitals : Bool → List Char → List Char
  | run, a :: b :: rest =>
    if run && a.isUpper && b.isLower then '_' :: a :: b :: partCapitals false rest
    else a :: partCapitals a.isUpper (b :: rest)
  | _, s => s

def partHumps : List Char → List Char
  | a :: b :: rest =>
    if (a.isLower || a.isDigit) && b.isUpper then a :: '_' :: b :: partHumps rest
    else a :: partHumps (b :: rest)
  | s => s

/-- Squeezes every run of other characters to one underscore. -/
def squeeze : Bool → List Char → List Char
  | _, [] => []
  | gap, c :: rest =>
    if isNameChar c then c :: squeeze false rest
    else if gap then squeeze true rest
    else '_' :: squeeze true rest

def snakeCase (name : String) : String :=
  let parted := partHumps (partCapitals false name.toList)
  let joined := trimEdges (squeeze false parted)
  String.ofList (joined.map Char.toLower)
where
  trimEdges (s : List Char) : List Char :=
    ((s.dropWhile (· == '_')).reverse.dropWhile (· == '_')).reverse

/-- An upper-case identifier; a leading digit is hidden behind a fixed start. -/
def constantName (name : String) : String :=
  let s := (snakeCase name).toList.map Char.toUpper
  if s.head?.any Char.isDigit then "COMPAT_" ++ String.ofList s else String.ofList s

def kebabCase (name : String) : String := String.intercalate "-" (words name)

def irregularPlurals : List (String × String) :=
  [("person", "people"), ("child", "children"), ("man", "men"), ("woman", "women"),
    ("datum", "data"), ("index", "indices"), ("status", "statuses"), ("address", "addresses")]

def endsWithAny (s : List Char) (endings : List String) : Bool :=
  endings.any fun e => e.toList.reverse.isPrefixOf s.reverse

/-- A plain English plural. The ending is read off the lower-cased name. -/
def plural (name : String) : String :=
  let low := lowerChars name.toList
  if name = "" then ""
  else match irregularPlurals.find? (·.1.toList == low) with
    | some (_, p) =>
      if name.toList.head?.any Char.isUpper then
        match p.toList with
        | c :: rest => String.ofList (c.toUpper :: rest)
        | [] => p
      else p
    | none =>
      if endsWithAny low ["s"] && !endsWithAny low ["ss"] then name
      else if endsWithAny low ["sh", "ch", "x", "z", "ss"] then name ++ "es"
      else if endsWithAny low ["y"] && 1 < name.toList.length &&
          !(low.reverse[1]?.any ("aeiou".toList.contains ·)) then
        String.ofList (name.toList.dropLast) ++ "ies"
      else name ++ "s"

/-- The path of a collection without one of its own. -/
def collectionPath (shortName : String) : String := "/" ++ plural (kebabCase shortName)

end HydraClient.Text
