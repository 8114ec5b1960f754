import LoxLang.Unicode.Property

/-!
Text between quotes: strings as elements of a printed list, with the characters escaped that would end the
string or break the line; and paths in messages, with the characters escaped that would not show.
-/

namespace LoxLang.Text

/-! ### Elements of lists -/

/-- The quote of a string: a double quote if the string holds a single quote and no double one. -/
def quoteOf (cs : List Char) : Char :=
  if cs.contains '\'' && !cs.contains '"' then '"' else '\''

/-- One character between quotes. -/
def escape (quote c : Char) : List Char :=
  if c = '\\' then ['\\', '\\']
  else if c = '\n' then ['\\', 'n']
  else if c = '\r' then ['\\', 'r']
  else if c = '\t' then ['\\', 't']
  else if c = quote then ['\\', c]
  else [c]

/-- A string between quotes. -/
def quoted (s : String) : String :=
  let cs := s.toList
  let quote := quoteOf cs
  String.ofList (quote :: (cs.flatMap (escape quote) ++ [quote]))

/-! ### Paths in messages -/

/-- Characters that do not show by themselves: controls, blanks other than the space, code points without a
character, and marks that change the character before them. -/
def hidden : CharSet :=
  ((Unicode.categoriesWith fun s => s.startsWith "z" || s.startsWith "c" || s == "mn" || s == "me").union
    Unicode.assigned.complement).diff (.single ' ')

/-- A code point in hexadecimal. -/
def hexText (c : Char) : List Char :=
  Nat.toDigits 16 c.toNat

/-- A character of a path between quotes. -/
def showChar (c : Char) : List Char :=
  if c.toNat = 0 then ['\\', '0']
  else if c = '\t' then ['\\', 't']
  else if c = '\r' then ['\\', 'r']
  else if c = '\n' then ['\\', 'n']
  else if c = '\\' || c = '"' || c = '\'' then ['\\', c]
  else if hidden.contains c then ['\\', 'u', '\x7b'] ++ hexText c ++ ['\x7d']
  else [c]

/-- A path between quotes. -/
def shown (path : String) : String :=
  String.ofList ('"' :: (path.toList.flatMap showChar ++ ['"']))

end LoxLang.Text
