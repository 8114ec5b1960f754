import LoxLang.Native.Arguments
import LoxLang.Pattern.Engine

/-!
Native functions that search texts for regular expressions. An engine reads the pattern before the other
arguments are looked at. Programs write replacements in a notation of their own, in which a backslash and a
number name a group and dollar signs mean nothing; they are turned into templates.
-/

namespace LoxLang.Native

/-- The digits at the beginning of a text, and what follows them. -/
def splitDigits (cs : List Char) : List Char × List Char :=
  (cs.takeWhile Char.isDigit, cs.dropWhile Char.isDigit)

/-- The template of a replacement text: a backslash and digits become a reference in braces, two backslashes
one backslash, and a dollar sign two; all else stays. The first argument bounds the number of steps. -/
def templateFrom : Nat → List Char → List Char
  | 0, _ => []
  | _, [] => []
  | n + 1, c :: cs =>
    if c = '$' then '$' :: '$' :: templateFrom n cs
    else if c = '\\' then
      match splitDigits cs with
      | ([], _) =>
        match cs with
        | '\\' :: rest => '\\' :: templateFrom n rest
        | cs => '\\' :: templateFrom n cs
      | (digits, rest) => '$' :: '\x7b' :: (digits ++ '\x7d' :: templateFrom n rest)
    else c :: templateFrom n cs

def templateOf (cs : List Char) : List Char :=
  templateFrom cs.length cs

/-- The pattern that a value describes. -/
def pattern (regex : Pattern.Engine) (v : Value) : Except NativeFault Pattern.Matcher := do
  match regex.compile (← string v) with
  | .ok p => return p
  | .error reason => throw (.invalidPattern reason)

/-- The characters of a text. -/
def subject (v : Value) : Except NativeFault (Array Char) := do
  return (← string v).toList.toArray

/-- The text of a group, nil if the group did not take part in the match. -/
def groupValue (text : Array Char) (m : Pattern.Match) (i : Nat) : Value :=
  ((Pattern.groupText? text m i).map Value.string).getD .nil

/-- The text of a group, empty if the group did not take part in the match. -/
def groupOrEmpty (text : Array Char) (m : Pattern.Match) (i : Nat) : Value :=
  .string ((Pattern.groupText? text m i).getD "")

/-- The text of a match and of its groups; nothing if there is no match. -/
def matchRow (p : Pattern.Matcher) (text : Array Char) : Option Pattern.Match → List Value
  | none => []
  | some m => (List.range (p.groups + 1)).map (groupValue text m)

/-- The first match anywhere in a text. -/
def searchText (regex : Pattern.Engine) (source text : Value) : Except NativeFault Answer := do
  let p ← pattern regex source
  let text ← subject text
  return .row (matchRow p text (p.first? text))

/-- The first match in a text, if it begins where the text does. -/
def matchText (regex : Pattern.Engine) (source text : Value) : Except NativeFault Answer := do
  let p ← pattern regex source
  let text ← subject text
  return .row (matchRow p text ((p.first? text).filter (·.extent.start = 0)))

/-- All matches in a text: without groups their texts, with one group its texts, and with more the texts of
the groups of each. -/
def findAll (regex : Pattern.Engine) (source text : Value) : Except NativeFault Answer := do
  let p ← pattern regex source
  let text ← subject text
  let found := p.all text
  match p.groups with
  | 0 => return .row (found.map (groupOrEmpty text · 0))
  | 1 => return .row (found.map (groupOrEmpty text · 1))
  | n => return .table (found.map fun m => (List.range n).map fun i => groupOrEmpty text m (i + 1))

/-- A text with all matches replaced. -/
def substitute (regex : Pattern.Engine) (source replacement text : Value) : Except NativeFault Answer := do
  let p ← pattern regex source
  let template := templateOf (← string replacement).toList
  let text ← subject text
  return .value (.string (String.ofList (p.replaceAll text template)))

end LoxLang.Native
