import LoxLang.Unicode.CharSet

/-!
Tables of code points as text. The entries stand between blanks and are written in hexadecimal: a code
point, or two with a dash between them for all from the first to the last; a slash behind them leaves
out every second one. In a table of pairs an entry can be followed by a colon and the partner of its first
code point; the partners of the others follow in order. Without a colon each code point goes with its
successor.
-/

namespace LoxLang.Unicode

/-- An entry of a table. -/
structure Entry where
  first : Nat
  last : Nat
  /-- The distance from one code point to the next. -/
  step : Nat
  partner : Option Nat
deriving Inhabited

def digitValue (c : Char) : Nat :=
  if c.isDigit then c.toNat - '0'.toNat else c.toNat - 'A'.toNat + 10

/-- The value of hexadecimal digits. -/
def hexValue (digits : String) : Nat :=
  digits.toList.foldl (fun n c => 16 * n + digitValue c) 0

/-- The two parts of a text that a mark separates, if it occurs. -/
def parts (mark text : String) : String × Option String :=
  match text.splitOn mark with
  | [a, b] => (a, some b)
  | _ => (text, none)

def entry (word : String) : Entry :=
  let (codes, partner) := parts ":" word
  let (codes, halved) := parts "/" codes
  let (first, last) := parts "-" codes
  ⟨hexValue first, hexValue (last.getD first), if halved.isSome then 2 else 1, partner.map hexValue⟩

def entries (table : String) : List Entry :=
  (((table.splitOn "\n").flatMap (·.splitOn " ")).filter (· ≠ "")).map entry

/-- The code points of an entry. -/
def Entry.codes (e : Entry) : List Nat :=
  (List.range ((e.last - e.first) / e.step + 1)).map fun i => e.first + i * e.step

def Entry.ranges (e : Entry) : List (Nat × Nat) :=
  if e.step = 1 then [(e.first, e.last)] else e.codes.map fun n => (n, n)

/-- The set that a table lists. -/
def charSet (table : String) : CharSet :=
  .ofRanges ((entries table).flatMap Entry.ranges)

/-- The pairs that a table lists. -/
def pairs (table : String) : List (Nat × Nat) :=
  (entries table).flatMap fun e =>
    e.codes.map fun n => (n, (e.partner.map fun p => p + (n - e.first)).getD (n + 1))

end LoxLang.Unicode
