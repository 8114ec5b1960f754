import LoxLang.Pattern.Cursor
import LoxLang.Pattern.Regex
import LoxLang.Unicode.Folding
import LoxLang.Unicode.Property

/-!
The characters and escapes of a pattern, and the characters of the text they stand for. Where case does not
count a character stands for its other cases too. Without the flag for Unicode, classes hold characters of
ASCII only, and what would go beyond them is refused.
-/

namespace LoxLang.Pattern.Rule

def asciiDigit : CharSet := .range '0' '9'
def asciiSpace : CharSet := .ofRanges [(9, 13), (32, 32)]
def asciiWord : CharSet :=
  ((CharSet.range 'a' 'z').union (.range 'A' 'Z')).union (asciiDigit.union (.single '_'))

/-- The characters of words. -/
def wordSet (f : Flags) : CharSet :=
  if f.unicode then Unicode.word else asciiWord

/-- A set, extended to all cases where the case does not count. -/
def folded (f : Flags) (s : CharSet) : CharSet :=
  if !f.ignoreCase then s else if f.unicode then s.foldCase else s.foldLatinCase

/-- The characters outside a set. Without Unicode they would include bytes that are no characters. -/
def outside (f : Flags) (s : CharSet) : Rule CharSet :=
  if f.unicode then return s.complement else failure

def negatedIf (negated : Bool) (f : Flags) (s : CharSet) : Rule CharSet :=
  if negated then outside f s else return s

/-- The set of a letter that stands for a class of characters; a capital letter stands for all others. -/
def classOfLetter (letter : Char) : Rule CharSet := do
  let f ← flags
  let s := match letter.toLower with
    | 'd' => if f.unicode then Unicode.digit else asciiDigit
    | 's' => if f.unicode then Unicode.space else asciiSpace
    | _ => wordSet f
  negatedIf letter.isUpper f s

/-- The set of any character. -/
def dot : Rule CharSet := do
  let f ← flags
  if !f.unicode then failure
  else if f.dotAll then return .all
  else if f.crlf then return (CharSet.ofChars ['\r', '\n']).complement
  else return (CharSet.single '\n').complement

/-! ### Escapes -/

/-- What an escape stands for. `byte` marks a character that was given by two digits, which without Unicode
is a byte. -/
inductive Escape where
  | char (c : Char) (byte : Bool)
  | look (l : Look)
  | set (s : CharSet)

def hexDigit? (c : Char) : Option Nat :=
  if c.isDigit then some (c.toNat - '0'.toNat)
  else if 'a' ≤ c ∧ c ≤ 'f' then some (c.toNat - 'a'.toNat + 10)
  else if 'A' ≤ c ∧ c ≤ 'F' then some (c.toNat - 'A'.toNat + 10)
  else none

/-- The character with a code point. -/
def charOf (n : Nat) : Rule Char :=
  if n.isValidChar then return Char.ofNat n else failure

/-- The value of `n` more digits, of which the first is the next character. -/
def hexDigits : Nat → Nat → Rule Nat
  | 0, value => return value
  | n + 1, value => do
    match hexDigit? (← peek) with
    | none => failure
    | some d =>
      advance
      hexDigits n (16 * value + d)

/-- The value of the digits up to a closing brace. The first argument bounds their number. -/
def bracedHex : Nat → Option Nat → Rule Nat
  | 0, _ => failure
  | n + 1, value => do
    let c ← peek
    if c == '}' then
      advance
      match value with
      | some v => return v
      | none => failure
    else match hexDigit? c with
      | none => failure
      | some d =>
        advance
        bracedHex n (some (16 * value.getD 0 + d))

/-- A character by its code point: in braces, or with as many digits as the letter asks for. -/
def hexEscape (letter : Char) : Rule Escape := do
  advance
  if (← peek) == '{' then
    advance
    return .char (← charOf (← bracedHex ((← get).rest.length + 1) none)) false
  else
    let digits := if letter == 'x' then 2 else if letter == 'u' then 4 else 8
    return .char (← charOf (← hexDigits digits 0)) (letter == 'x')

/-- The characters up to a closing brace. The first argument bounds their number. -/
def bracedText : Nat → List Char → Rule String
  | 0, _ => failure
  | n + 1, taken => do
    let c ← peek
    if c == '}' then
      bump
      return String.ofList taken.reverse
    else
      advance
      bracedText n (c :: taken)

/-- The characters with a property: a name, or a name and a value. -/
def namedProperty (text : String) : Option (Bool × CharSet) :=
  match text.splitOn "!=" with
  | name :: value :: more => (Unicode.valued? name ("!=".intercalate (value :: more))).map fun s => (true, s)
  | _ =>
    let mark := if text.contains ':' then ":" else "="
    match text.splitOn mark with
    | name :: value :: more => (Unicode.valued? name (mark.intercalate (value :: more))).map fun s => (false, s)
    | _ => (Unicode.property? text).map fun s => (false, s)

/-- A property of characters, by one letter or by its name in braces. -/
def propertyEscape (negated : Bool) : Rule Escape := do
  advance
  let c ← peek
  let name ← do
    if c == '{' then
      advance
      bracedText ((← get).rest.length + 1) []
    else if c == '\\' then failure
    else
      advance
      pure c.toString
  let f ← flags
  if !f.unicode then failure
  match namedProperty name with
  | none => failure
  | some (differs, s) => return .set (← negatedIf (negated != differs) f (folded f s))

/-- Letters and dashes, with blanks passed over. The first argument bounds their number. -/
def placeName : Nat → List Char → Rule String
  | 0, _ => failure
  | n + 1, taken => do
    match ← peek? with
    | none => failure
    | some c =>
      if c.isAlpha || c == '-' then
        advance
        placeName n (c :: taken)
      else return String.ofList taken.reverse

/-- The place that a name in braces behind the letter for an edge of a word stands for. Braces that do not
begin with a letter or dash are a repetition. -/
def wordPlace : Rule WordPlace := do
  let before ← get
  if (← peek?) != some '{' then return .edge
  advance
  let c ← peek
  if !(c.isAlpha || c == '-') then
    set before
    return .edge
  let name ← placeName ((← get).rest.length + 1) []
  expect '}'
  match name with
  | "start" => return .start
  | "end" => return .stop
  | "start-half" => return .startHalf
  | "end-half" => return .stopHalf
  | _ => failure

/-- Whether a character stands for itself behind a backslash. -/
def isEscapable (c : Char) : Bool :=
  c.toNat < 0x80 && !c.isAlphanum && c != '<' && c != '>'

/-- An escape; its backslash comes next. -/
def escape : Rule Escape := do
  bump
  let c ← peek
  let word := wordSet (← flags)
  if c == 'x' || c == 'u' || c == 'U' then hexEscape c
  else if c == 'p' || c == 'P' then propertyEscape (c == 'P')
  else
    bump
    if "dswDSW".contains c then return .set (← classOfLetter c)
    else if isEscapable c then return .char c false
    else match c with
      | 'a' => return .char '\x07' false
      | 'f' => return .char '\x0c' false
      | 't' => return .char '\t' false
      | 'n' => return .char '\n' false
      | 'r' => return .char '\r' false
      | 'v' => return .char '\x0b' false
      | 'A' => return .look .textStart
      | 'z' => return .look .textStop
      | 'b' => return .look (.words (← wordPlace) word)
      | 'B' => return .look (.words .inside word)
      | '<' => return .look (.words .start word)
      | '>' => return .look (.words .stop word)
      | _ => failure

/-- A character that stands for itself. -/
def literal (c : Char) (byte : Bool) : Rule CharSet := do
  let f ← flags
  if !f.unicode && byte && 0x80 ≤ c.toNat then failure
  return folded f (.single c)

end LoxLang.Pattern.Rule
