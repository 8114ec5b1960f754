import LoxLang.Decimal.Reader
import LoxLang.Pattern.Reader
import LoxLang.Pattern.Search

/-!
An engine for regular expressions. A pattern is read as an expression and made into a program; a program finds
the matches in a text. A template names groups by a dollar sign and a number or name, with or without braces,
and writes a dollar sign as two.
-/

namespace LoxLang

namespace Pattern.Template

/-- Whether a character can stand in a reference without braces. -/
def isNameChar (c : Char) : Bool :=
  c.isAlphanum || c == '_'

/-- The name of the group that a text behind a dollar sign refers to, and what follows the reference. -/
def reference? : List Char → Option (List Char × List Char)
  | '\x7b' :: cs =>
    match cs.dropWhile (· != '\x7d') with
    | _ :: rest => some (cs.takeWhile (· != '\x7d'), rest)
    | [] => none
  | cs =>
    match cs.takeWhile isNameChar with
    | [] => none
    | name => some (name, cs.dropWhile isNameChar)

/-- The text of the group with a number or name; empty if there is none. -/
def groupText (group : Nat → List Char) (named : List Char → Option Nat) (name : List Char) : List Char :=
  if name.all Char.isDigit && !name.isEmpty then group (Decimal.digitsValue name)
  else ((named name).map group).getD []

/-- The text of a template, given the texts of the groups and the numbers of those that have names. A dollar
sign that begins no reference stands for itself. The first argument bounds the number of steps. -/
def expandFrom (group : Nat → List Char) (named : List Char → Option Nat) : Nat → List Char → List Char
  | 0, _ => []
  | _, [] => []
  | n + 1, c :: cs =>
    if c = '$' then
      match cs with
      | '$' :: rest => '$' :: expandFrom group named n rest
      | cs =>
        match reference? cs with
        | none => '$' :: expandFrom group named n cs
        | some (name, rest) => groupText group named name ++ expandFrom group named n rest
    else c :: expandFrom group named n cs

def expand (group : Nat → List Char) (named : List Char → Option Nat) (template : List Char) : List Char :=
  expandFrom group named template.length template

end Pattern.Template

structure Pattern where
  program : Pattern.Program
  /-- The number of capturing groups. -/
  groups : Nat
  /-- The names of groups, with their numbers. -/
  names : List (String × Nat)
deriving Inhabited

namespace Pattern

/-- The size at which an expression is refused. -/
def maxSize : Nat := 327680

/-- The pattern that a text describes, if it is well formed and not too large. -/
def ofString? (text : String) : Option Pattern :=
  match read? text with
  | none => none
  | some (regex, names) =>
    if maxSize < regex.size then none
    else some ⟨.ofRegex regex, regex.groupCount, names⟩

/-- The first match in a text. -/
def first? (p : Pattern) (text : Array Char) : Option Match :=
  p.program.search text 0

/-- All matches in a text, from left to right. -/
def all (p : Pattern) (text : Array Char) : List Match :=
  p.program.allMatches text

/-- What a template stands for in a match of a text. -/
def expand (p : Pattern) (text : Array Char) (m : Match) (template : List Char) : List Char :=
  Template.expand (m.groupChars text) (fun name => p.names.lookup (String.ofList name)) template

/-- The text from a place on, with some matches in it replaced by what a template stands for in them. -/
def replaceFrom (p : Pattern) (text : Array Char) (template : List Char) : Nat → List Match → List Char
  | place, [] => slice text ⟨place, text.size⟩
  | place, m :: rest =>
    slice text ⟨place, m.extent.start⟩ ++ p.expand text m template ++
      replaceFrom p text template m.extent.stop rest

/-- A text with all matches replaced. -/
def replaceAll (p : Pattern) (text : Array Char) (template : List Char) : List Char :=
  p.replaceFrom text template 0 (p.all text)

/-- The pattern as an engine's reading of it. -/
def matcher (p : Pattern) : Matcher :=
  ⟨p.groups, p.first?, p.all, p.expand, p.replaceAll⟩

/-- The engine that reads patterns as these. It has no words for what is wrong with a text that is none. -/
def Engine.standard : Engine where
  compile source :=
    match ofString? source with
    | some p => .ok p.matcher
    | none => .error none

theorem Engine.standard_compile {source : String} {m : Matcher} :
    Engine.standard.compile source = .ok m ↔ ∃ p, ofString? source = some p ∧ p.matcher = m := by
  cases h : ofString? source <;> simp [Engine.standard, h]

end Pattern

end LoxLang
