import LoxLang.Pattern.Escape

/-!
Classes of characters in brackets: characters, ranges, escapes, classes with names, and classes in brackets
again, with operators between them that are applied from left to right.
-/

namespace LoxLang.Pattern.Rule

/-- The classes of characters that have a name between colons. -/
def posix? : String → Option CharSet
  | "alnum" => some ((CharSet.range 'a' 'z').union ((CharSet.range 'A' 'Z').union asciiDigit))
  | "alpha" => some ((CharSet.range 'a' 'z').union (.range 'A' 'Z'))
  | "ascii" => some ⟨[(0, 0x7F)]⟩
  | "blank" => some (.ofChars ['\t', ' '])
  | "cntrl" => some (.ofRanges [(0, 0x1F), (0x7F, 0x7F)])
  | "digit" => some asciiDigit
  | "graph" => some (.range '!' '~')
  | "lower" => some (.range 'a' 'z')
  | "print" => some (.range ' ' '~')
  | "punct" => some (.ofRanges [(0x21, 0x2F), (0x3A, 0x40), (0x5B, 0x60), (0x7B, 0x7E)])
  | "space" => some asciiSpace
  | "upper" => some (.range 'A' 'Z')
  | "word" => some asciiWord
  | "xdigit" => some ((CharSet.range 'a' 'f').union ((CharSet.range 'A' 'F').union asciiDigit))
  | _ => none

/-- A class by its name between brackets and colons, if that comes next. -/
def posixClass : Rule (Option CharSet) := do
  let before ← get
  if !(← take? "[:") then return none
  let negated ← take? "^"
  let rest := (← get).rest
  let name := rest.takeWhile (· != ':')
  modify fun c => { c with rest := rest.drop name.length }
  if !(← take? ":]") then
    set before
    return none
  match posix? (String.ofList name) with
  | none =>
    set before
    return none
  | some s => return some (← negatedIf negated before.flags (folded before.flags s))

/-- One element of a class: a character, or a set. -/
def classAtom : Rule Escape := do
  let c ← peek
  if c == '\\' then escape
  else
    bump
    return .char c false

/-- The characters from one to another; without Unicode there are only those of ASCII. -/
def classRange (a b : Char) : Rule CharSet := do
  if b < a || (!(← flags).unicode && 0x80 ≤ b.toNat) then failure
  return .range a b

/-- One element of a class, or two with a dash between them. -/
def classElement : Rule CharSet := do
  let first ← classAtom
  skip
  let c ← peek
  let cursor ← get
  let behind := if cursor.flags.extended then dropBlanks false cursor.rest.tail else cursor.rest.tail
  if c != '-' || behind.head? == some ']' || behind.head? == some '-' then
    match first with
    | .char c _ => classRange c c
    | .set s => return s
    | .look _ => failure
  else
    advance
    let _ ← peek
    match first, ← classAtom with
    | .char a _, .char b _ => classRange a b
    | _, _ => failure

/-- An operation on the set before an operator and the set behind it. -/
abbrev SetOp := CharSet → CharSet → CharSet

/-- The result of the operation that waits for its second set. -/
def applied (f : Flags) (pending : Option (SetOp × CharSet)) (s : CharSet) : CharSet :=
  match pending with
  | none => s
  | some (op, left) => op (folded f left) (folded f s)

/-- The dashes at the beginning of a class, which stand for themselves. -/
def leadingDashes : Nat → CharSet → Rule CharSet
  | 0, s => return s
  | n + 1, s => do
    if (← peek) == '-' then
      advance
      leadingDashes n (s.union (.single '-'))
    else return s

mutual

/-- A class; its opening bracket comes next. -/
def bracket : Nat → Rule CharSet
  | 0 => failure
  | n + 1 => do
    advance
    let negated := (← peek) == '^'
    if negated then advance
    let dashes ← leadingDashes ((← get).rest.length + 1) .empty
    let s ← do
      if dashes.ranges.isEmpty && (← peek) == ']' then
        advance
        pure (CharSet.single ']')
      else pure dashes
    let _ ← peek
    let s ← classBody n s none
    let f ← flags
    negatedIf negated f (folded f s)

/-- The rest of a class up to and including its closing bracket. `s` is what has been read since the last
operator. -/
def classBody : Nat → CharSet → Option (SetOp × CharSet) → Rule CharSet
  | 0, _, _ => failure
  | n + 1, s, pending => do
    skip
    let c ← peek
    let f ← flags
    if c == ']' then
      bump
      return applied f pending s
    else if c == '[' then
      match ← posixClass with
      | some t => classBody n (s.union t) pending
      | none =>
        let t ← bracket n
        classBody n (s.union t) pending
    else if ← take? "&&" then classBody n .empty (some (.inter, applied f pending s))
    else if ← take? "--" then classBody n .empty (some (.diff, applied f pending s))
    else if ← take? "~~" then classBody n .empty (some (.symmDiff, applied f pending s))
    else
      let t ← classElement
      classBody n (s.union t) pending

end

end LoxLang.Pattern.Rule
