import LoxLang.Text.Blank

/-!
Where the reading of a pattern stands: the text that is left, the flags that are in force, and the groups
that have been begun. Rules take characters from it or give the pattern up as not well formed.
-/

namespace LoxLang.Pattern

/-- The flags of a part of a pattern. -/
structure Flags where
  ignoreCase : Bool := false
  multiLine : Bool := false
  dotAll : Bool := false
  swapGreed : Bool := false
  crlf : Bool := false
  /-- Blanks and comments in the pattern do not count. -/
  extended : Bool := false
  unicode : Bool := true
deriving Inhabited

/-- The state of reading. -/
structure Cursor where
  rest : List Char
  flags : Flags
  /-- The number of capturing groups begun so far. -/
  groups : Nat
  names : List (String × Nat)
deriving Inhabited

abbrev Rule := StateT Cursor Option

namespace Rule

/-- The text without leading blanks and comments; a comment goes from a hash sign to the end of the line. -/
def dropBlanks (inComment : Bool) : List Char → List Char
  | [] => []
  | c :: cs =>
    if inComment then dropBlanks (c != '\n') cs
    else if Text.isBlank c then dropBlanks false cs
    else if c == '#' then dropBlanks true cs
    else c :: cs

def flags : Rule Flags := do
  return (← get).flags

def peek? : Rule (Option Char) := do
  return (← get).rest.head?

/-- The next character, which has to be there. -/
def peek : Rule Char := do
  match ← peek? with
  | some c => return c
  | none => failure

def bump : Rule Unit :=
  modify fun c => { c with rest := c.rest.tail }

/-- Passes over blanks and comments where they do not count. -/
def skip : Rule Unit :=
  modify fun c => if c.flags.extended then { c with rest := dropBlanks false c.rest } else c

def advance : Rule Unit := do
  bump
  skip

/-- Passes over a text, if it comes next. -/
def take? (text : String) : Rule Bool := do
  let c ← get
  if text.toList.isPrefixOf c.rest then
    set { c with rest := c.rest.drop text.length }
    return true
  else return false

def expect (c : Char) : Rule Unit := do
  if (← peek) == c then bump else failure

end Rule

end LoxLang.Pattern
