import LoxLang.Decimal.Reader
import LoxLang.Pattern.Bracket

/-!
Reading patterns. A pattern is text in the usual notation of regular expressions, without references back
and without conditions on the text around a place other than those of `Look`. Flags in parentheses change
the meaning of what follows them, to the end of their group. Reading yields an expression that no longer
depends on flags, or nothing if the pattern is not well formed.
-/

namespace LoxLang.Pattern

/-- An expression, and how deep it is nested. -/
structure Part where
  regex : Regex
  depth : Nat
deriving Inhabited

/-- What stands between two operators; `none` is a group of flags, which cannot be repeated. -/
abbrev Item := Option Part

namespace Rule

/-! ### Repetitions -/

/-- The last item, which is to be repeated, and the ones before it. -/
def operand : List Item → Rule (Part × List Item)
  | some part :: items => return (part, items)
  | _ => failure

/-- A question mark behind a repetition reverses its preference. -/
def greed : Rule Bool := do
  let f ← flags
  if (← peek?) == some '?' then
    bump
    return f.swapGreed
  else return !f.swapGreed

def Part.repeated (part : Part) (min : Nat) (max : Option Nat) (greedy : Bool) : Part :=
  ⟨part.regex.repeated min max greedy, part.depth + 1⟩

def blanks : Rule Unit :=
  modify fun c => { c with rest := c.rest.dropWhile Text.isBlank }

/-- Decimal digits. The first argument bounds their number. -/
def digits : Nat → List Char → Rule (List Char)
  | 0, taken => return taken.reverse
  | n + 1, taken => do
    match ← peek? with
    | some c =>
      if c.isDigit then
        advance
        digits n (c :: taken)
      else return taken.reverse
    | none => return taken.reverse

/-- A number of 32 bits between blanks; `none` if there is none. -/
def count? : Rule (Option Nat) := do
  blanks
  let ds ← digits ((← get).rest.length + 1) []
  blanks
  skip
  if ds.isEmpty then return none
  let n := Decimal.digitsValue ds
  if n < twoTo 32 then return some n else failure

/-- The bounds of a repetition in braces; the opening brace comes next. -/
def bounds : Rule (Nat × Option Nat) := do
  advance
  let _ ← peek
  match ← count? with
  | none => failure
  | some min =>
    if (← peek) == ',' then
      advance
      if (← peek) == '}' then
        advance
        return (min, none)
      else
        match ← count? with
        | none => failure
        | some max =>
          if (← peek) != '}' || max < min then failure
          advance
          return (min, some max)
    else
      if (← peek) != '}' then failure
      advance
      return (min, some min)

/-! ### Groups -/

/-- The flag of a letter. -/
def Flags.set? (f : Flags) (on : Bool) : Char → Option Flags
  | 'i' => some { f with ignoreCase := on }
  | 'm' => some { f with multiLine := on }
  | 's' => some { f with dotAll := on }
  | 'U' => some { f with swapGreed := on }
  | 'u' => some { f with unicode := on }
  | 'R' => some { f with crlf := on }
  | 'x' => some { f with extended := on }
  | _ => none

/-- Reads flags up to a colon or a closing parenthesis. A dash turns the flags behind it off; no flag
and no dash can be given twice. `seen` are the letters read so far, the last one first. The answer is the
flags, whether there were any, and the text from the closing character on. -/
def readFlags (f : Flags) (seen : List Char) : List Char → Option (Flags × Bool × List Char)
  | [] => none
  | c :: cs =>
    if c = ':' ∨ c = ')' then
      if seen.head? = some '-' then none else some (f, !seen.isEmpty, c :: cs)
    else if seen.contains c then none
    else if c = '-' then readFlags f (c :: seen) cs
    else match Flags.set? f (!seen.contains '-') c with
      | some f => readFlags f (c :: seen) cs
      | none => none

/-- Whether a character can stand in the name of a group. -/
def isNameChar (first : Bool) (c : Char) : Bool :=
  c == '_' || Unicode.alphabetic.contains c ||
    (!first && (".[]".contains c || (Unicode.categoriesWith (·.startsWith "n")).contains c))

/-- The name of a group up to its closing angle bracket; no other group may have it. -/
def groupName (index : Nat) : Rule Unit := do
  let c ← get
  let name := c.rest.takeWhile (· != '>')
  let text := String.ofList name
  match name with
  | [] => failure
  | first :: others =>
    if !isNameChar true first || !others.all (isNameChar false) then failure
    if (c.names.lookup text).isSome then failure
    set { c with rest := c.rest.drop name.length, names := (text, index) :: c.names }
    expect '>'

/-- Items one after the other. -/
def sequence (items : List Item) : Part :=
  let parts := items.map fun i => i.getD ⟨.empty, 0⟩
  match parts with
  | [] => ⟨.empty, 0⟩
  | [p] => p
  | p :: ps =>
    ⟨ps.foldl (fun r q => .seq r q.regex) p.regex, 1 + parts.foldl (fun d q => Nat.max d q.depth) 0⟩

/-- Alternatives, the preferred one first. -/
def alternatives : List Part → Part
  | [] => ⟨.empty, 0⟩
  | [p] => p
  | parts =>
    match parts.reverse with
    | [] => ⟨.empty, 0⟩
    | last :: others =>
      ⟨others.foldl (fun r q => .alt q.regex r) last.regex,
        1 + parts.foldl (fun d q => Nat.max d q.depth) 0⟩

/-- A set of characters as an item. -/
def setItem (s : CharSet) : Item :=
  some ⟨.set s, 0⟩

/-- A character or an escape outside brackets. -/
def primitive : Rule Item := do
  let c ← peek
  let f ← flags
  if c == '\\' then
    match ← escape with
    | .char c byte => return setItem (← literal c byte)
    | .look l => return some ⟨.look l, 0⟩
    | .set s => return setItem s
  else
    bump
    match c with
    | '.' => return setItem (← dot)
    | '^' => return some ⟨.look (if f.multiLine then .lineStart f.crlf else .textStart), 0⟩
    | '$' => return some ⟨.look (if f.multiLine then .lineStop f.crlf else .textStop), 0⟩
    | c => return setItem (← literal c false)

mutual

/-- Alternatives up to a closing parenthesis or the end. -/
def branches : Nat → Rule (List Part)
  | 0 => failure
  | n + 1 => do
    let first ← branch n []
    if (← peek?) == some '|' then
      bump
      return first :: (← branches n)
    else return [first]

/-- One alternative. The items that have been read stand in `items`, the last one first. -/
def branch : Nat → List Item → Rule Part
  | 0, _ => failure
  | n + 1, items => do
    skip
    match ← peek? with
    | none | some '|' | some ')' => return sequence items.reverse
    | some '(' => branch n ((← group n) :: items)
    | some '[' =>
      let s ← bracket (2 * (← get).rest.length + 2)
      branch n (some ⟨.set s, 1⟩ :: items)
    | some '?' =>
      let (part, items) ← operand items
      bump
      branch n (some (Part.repeated part 0 (some 1) (← greed)) :: items)
    | some '*' =>
      let (part, items) ← operand items
      bump
      branch n (some (Part.repeated part 0 none (← greed)) :: items)
    | some '+' =>
      let (part, items) ← operand items
      bump
      branch n (some (Part.repeated part 1 none (← greed)) :: items)
    | some '{' =>
      let (part, items) ← operand items
      let (min, max) ← bounds
      branch n (some (Part.repeated part min max (← greed)) :: items)
    | some _ => branch n ((← primitive) :: items)

/-- A group, or flags for what follows; the opening parenthesis comes next. -/
def group : Nat → Rule Item
  | 0 => failure
  | n + 1 => do
    bump
    skip
    let outer ← flags
    let rest := (← get).rest
    if ["?=", "?!", "?<=", "?<!"].any fun look => look.toList.isPrefixOf rest then failure
    let named ← (do if ← take? "?P<" then return true else take? "?<")
    let index ← do
      if named || (← peek) != '?' then
        modify fun c => { c with groups := c.groups + 1 }
        pure (some (← get).groups)
      else pure none
    if named then groupName ((← get).groups)
    if index.isNone then
      bump
      let c ← get
      match readFlags c.flags [] c.rest with
      | none => failure
      | some (f, given, rest) =>
        set { c with rest := rest, flags := f }
        if (← peek) == ')' then
          bump
          if given then return none else failure
        else bump
    let inner := alternatives (← branches n)
    expect ')'
    modify fun c => { c with flags := outer }
    return some ⟨.group index inner.regex, inner.depth + 1⟩

end

/-- How deep a pattern may be nested. -/
def maxDepth : Nat := 250

/-- A whole pattern. -/
def pattern : Rule Regex := do
  let inner := alternatives (← branches (4 * (← get).rest.length + 4))
  if (← peek?).isSome || maxDepth < inner.depth then failure
  return inner.regex

end Rule

/-- Reads a pattern: its expression and the names of its groups. -/
def read? (text : String) : Option (Regex × List (String × Nat)) :=
  (Rule.pattern.run ⟨text.toList, {}, 0, []⟩).map fun (r, c) => (r, c.names)

end LoxLang.Pattern
