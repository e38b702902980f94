import HydraClient.Text.Blank
import HydraClient.Text.LetterCase
import HydraClient.Text.Lines
import HydraClient.Text.Word
import HydraClient.Timestamp

/-! # Headers of generated files

A written file starts with a banner of two comment lines and an empty line. Whoever edits the file
by hand marks it in the header, and then it is left alone.
-/
namespace HydraClient

structure Header where
  lines : List String
  body : String
  annotations : List String
  deriving DecidableEq, Repr

namespace Header

/-- The annotation that keeps a file from being written again. -/
def optOut : String := "no-regenerate"

def isComment (line : String) : Bool := "//".toList.isPrefixOf line.toList

def isBlankLine (line : String) : Bool := line.toList.all Text.isBlank

def annotation? (line : String) : Option String :=
  match line.toList with
  | '/' :: '/' :: rest =>
    match rest.dropWhile Text.isBlank with
    | '@' :: tail =>
      let word := tail.takeWhile fun c => Text.isWord c || c == '-'
      if word.isEmpty then none else some (String.ofList (Text.lowerChars word))
    | _ => none
  | _ => none

/-- Splits a file. The header is the run of comments at the start, if a blank line closes it. The
annotations of the run count either way. -/
def parse (content : String) : Header :=
  let all := Text.lines content
  let comments := all.takeWhile isComment
  let annotations := comments.filterMap annotation?
  match all.drop comments.length with
  | l :: rest =>
    if isBlankLine l then ⟨comments, Text.joinLines rest, annotations⟩
    else ⟨[], content, annotations⟩
  | [] => ⟨[], content, annotations⟩

def isFrozen (h : Header) : Bool := h.annotations.contains optOut

def banner (command : String) (time : Timestamp) : String :=
  Text.joinLines [
    "// This file was last generated with " ++ command ++ " on " ++ time.text,
    "// DO NOT EDIT! If you need to edit this file, add \"// @" ++ optOut ++
      "\" as the first line."]

def write (banner body : String) : String := banner ++ "\n\n" ++ body

end Header
end HydraClient
