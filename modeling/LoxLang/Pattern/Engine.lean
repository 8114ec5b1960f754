/-!
What programs need of an engine for regular expressions. The engine reads a pattern once; what it has read
finds the matches of the pattern in texts, and replaces them by what a template says. In a template a dollar
sign and the name or number of a group stand for the text of the group.
-/

namespace LoxLang.Pattern

/-- A stretch of text between two places. -/
structure Extent where
  start : Nat
  stop : Nat
deriving DecidableEq, Inhabited

/-- A match: where it lies, and where its groups lie that took part in it. -/
structure Match where
  extent : Extent
  groups : List (Option Extent)
deriving Inhabited

/-- The group with a number, if it took part; group zero is the whole match. -/
def Match.group? (m : Match) : Nat → Option Extent
  | 0 => some m.extent
  | i + 1 => (m.groups[i]?).join

/-- The characters of a stretch of text. -/
def slice (text : Array Char) (e : Extent) : List Char :=
  (text.extract e.start e.stop).toList

/-- The text of a group of a match, if the group took part in it. -/
def groupText? (text : Array Char) (m : Match) (i : Nat) : Option String :=
  (m.group? i).map fun e => String.ofList (slice text e)

/-- The text of a group in a match, empty if there is no such group or if it took no part. -/
def Match.groupChars (text : Array Char) (m : Match) (i : Nat) : List Char :=
  ((m.group? i).map (slice text)).getD []

/-- A pattern that an engine has read. -/
structure Matcher where
  /-- The number of capturing groups. -/
  groups : Nat
  /-- The first match in a text. -/
  first? : Array Char → Option Match
  /-- All matches in a text, from left to right. -/
  all : Array Char → List Match
  /-- What a template stands for in a match of a text. -/
  expand : Array Char → Match → List Char → List Char
  /-- A text with all matches replaced by what a template stands for in them. -/
  replaceAll : Array Char → List Char → List Char

/-- An engine reads patterns. It says why a text is none, if it has words for it. -/
structure Engine where
  compile : String → Except (Option String) Matcher

instance : Inhabited Engine :=
  ⟨⟨fun _ => .error none⟩⟩

end LoxLang.Pattern
