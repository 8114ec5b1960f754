import LoxLang.Token.Lexer

/-!
The text as bytes. A scanner that reads byte after byte knows the offset of the next byte, the number of its
line and the offset at which that line begins, and takes words out of the text by their offsets. The text is
UTF-8, so an offset may stand within a character; there the text cannot be taken apart.
-/

namespace LoxLang

open Lexer (Piece isWordChar numberLiteral single? double? faultPosition)

namespace Bytes

/-! ### Texts and offsets -/

/-- The text in front of a byte, and the text from it on. There are none if the byte stands within a character
or behind the text. -/
def split? : List Char → Nat → Option (List Char × List Char)
  | cs, 0 => some ([], cs)
  | [], _ + 1 => none
  | c :: cs, n + 1 =>
    if c.utf8Size ≤ n + 1 then (split? cs (n + 1 - c.utf8Size)).map (Prod.map (c :: ·) id) else none

/-- The text from one byte to another. -/
def slice? (cs : List Char) (start stop : Nat) : Option (List Char) := do
  let (_, rest) ← split? cs start
  let (text, _) ← split? rest (stop - start)
  if start ≤ stop then some text else none

/-! ### Reading -/

/-- How far a text is read: the offset of the next byte, the number of its line, and the offset at which that
line begins. -/
structure Mark where
  offset : Nat
  line : Nat
  lineStart : Nat
deriving DecidableEq

namespace Mark

def start : Mark := ⟨0, 0, 0⟩

/-- Behind bytes none of which is counted as a line feed. -/
def skip (m : Mark) (n : Nat) : Mark :=
  { m with offset := m.offset + n }

/-- Behind a byte that opens a new line if it is a line feed. -/
def next (m : Mark) (b : UInt8) : Mark :=
  if b = 10 then ⟨m.offset + 1, m.line + 1, m.offset + 1⟩ else m.skip 1

/-- The characters between the beginning of the line and the mark, or the bytes if a character is cut in
two. -/
def column (cs : List Char) (m : Mark) : Nat :=
  ((slice? cs m.lineStart m.offset).map List.length).getD (m.offset - m.lineStart)

def position (cs : List Char) (m : Mark) : Position :=
  ⟨m.line, m.column cs⟩

end Mark

/-- The bytes that are left to read, from a mark on. -/
structure Reader where
  mark : Mark
  rest : List UInt8

namespace Reader

variable (r : Reader)

/-- A test of characters, on the character with the number of the byte. -/
def onByte (p : Char → Bool) (b : UInt8) : Bool :=
  p (Char.ofUInt8 b)

/-- The next byte is there and passes the test. -/
def peek (p : Char → Bool) : Bool :=
  r.rest.head?.any (onByte p)

def skip (n : Nat) : Reader :=
  ⟨r.mark.skip n, r.rest.drop n⟩

/-- Behind the bytes that pass a test. -/
def past (p : Char → Bool) : Reader :=
  ⟨r.mark.skip (r.rest.takeWhile (onByte p)).length, r.rest.dropWhile (onByte p)⟩

/-- Behind the bytes that pass a test, the line feeds among them counted. -/
def through (p : Char → Bool) : Reader :=
  ⟨(r.rest.takeWhile (onByte p)).foldl Mark.next r.mark, r.rest.dropWhile (onByte p)⟩

end Reader

/-- Behind a block comment that is open `depth + 1` times, and whether it is closed. -/
def closeComment : Nat → Mark → List UInt8 → Bool × Reader
  | _, m, [] => (false, ⟨m, []⟩)
  | depth, m, 47 :: 42 :: bs => closeComment (depth + 1) (m.skip 2) bs
  | 0, m, 42 :: 47 :: bs => (true, ⟨m.skip 2, bs⟩)
  | depth + 1, m, 42 :: 47 :: bs => closeComment depth (m.skip 2) bs
  | depth, m, b :: bs => closeComment depth (m.next b) bs

/-! ### Pieces -/

section Step

variable (cs : List Char) (r : Reader)

/-- From an opening quote on. -/
def string (quote : Char) : Option (Piece × Reader) := do
  let body := (r.skip 1).through (· != quote)
  if body.rest.isEmpty then return (.fault .unterminatedString, body)
  let stop := body.skip 1
  let text ← slice? cs (r.mark.offset + 1) (stop.mark.offset - 1)
  return (.token .string (some (.string (String.ofList text))), stop)

/-- The value of digits, and of a point with digits behind them. -/
def numberOf (text : List Char) : Literal :=
  numberLiteral (text.takeWhile Char.isDigit) ((text.dropWhile Char.isDigit).drop 1)

/-- Behind digits, and behind a point if there are digits behind it too. -/
def numberEnd : Reader :=
  let whole := (r.skip 1).past Char.isDigit
  if whole.peek (· == '.') && (whole.skip 1).peek Char.isDigit then (whole.skip 1).past Char.isDigit
  else whole

/-- From a first digit on. -/
def number : Option (Piece × Reader) := do
  let stop := numberEnd r
  let text ← slice? cs r.mark.offset stop.mark.offset
  return (.token .number (some (numberOf text)), stop)

/-- From a first letter or an underscore on. Keywords are found by their bytes. -/
def word : Piece × Reader :=
  let stop := (r.skip 1).past isWordChar
  let bytes := r.rest.take (stop.mark.offset - r.mark.offset)
  (.token (.ofWord (String.ofList (bytes.map Char.ofUInt8))) none, stop)

/-- A character that begins nothing. All of its bytes are passed. -/
def unsupported : Option (Piece × Reader) := do
  let (_, rest) ← split? cs r.mark.offset
  let c := rest.headD '\ufffd'
  return (.fault (.unsupported c), r.skip c.utf8Size)

/-- A character that no equals sign behind it belongs to. -/
def lone (c : Char) : Option (Piece × Reader) :=
  match single? c with
  | some kind => some (.token kind none, r.skip 1)
  | none => unsupported cs r

def punctuation (c : Char) : Option (Piece × Reader) :=
  match double? c, (r.skip 1).peek (· == '=') with
  | some kind, true => some (.token kind none, r.skip 2)
  | _, _ => lone cs r c

def blockComment : Piece × Reader :=
  let inside := r.skip 2
  match closeComment 0 inside.mark inside.rest with
  | (true, stop) => (.gap, stop)
  | (false, stop) => (.fault .unterminatedComment, stop)

/-- From a stroke on. -/
def stroke : Option (Piece × Reader) :=
  if (r.skip 1).peek (· == '/') then some (.gap, (r.skip 2).past (· != '\n'))
  else if (r.skip 1).peek (· == '*') then some (blockComment r)
  else punctuation cs r '/'

/-- The piece that begins with a byte, which is the next one. `none` if it takes a character apart. -/
def step (b : UInt8) : Option (Piece × Reader) :=
  let c := Char.ofUInt8 b
  if c == ' ' || c == '\r' || c == '\t' || c == '\n' then some (.gap, ⟨r.mark.next b, r.rest.drop 1⟩)
  else if c == '"' || c == '\'' then string cs r c
  else if c.isDigit then number cs r
  else if isWordChar c then some (word r)
  else if c == '/' then stroke cs r
  else punctuation cs r c

end Step

/-! ### Texts -/

/-- An item, and the bytes that it was found in. -/
structure Found where
  item : Except Diagnostic Token
  start : Nat
  stop : Nat

/-- What a piece is among the items. -/
def found (cs : List Char) (start stop : Mark) : Piece → Option (List Found)
  | .gap => some []
  | .token kind literal => do
    let text ← slice? cs start.offset stop.offset
    let t : Token := ⟨kind, String.ofList text, literal, ⟨start.position cs, stop.position cs⟩⟩
    return [⟨.ok t, start.offset, stop.offset⟩]
  | .fault cause =>
    let position := faultPosition (start.position cs) (stop.position cs) cause
    some [⟨.error ⟨position, .lexical cause, none⟩, start.offset, stop.offset⟩]

/-- Reads piece by piece; each piece has a byte, so as many pieces as there are bytes are enough. -/
def scanFrom (cs : List Char) : Nat → Reader → Option (List Found)
  | _, ⟨m, []⟩ => some [⟨.ok (.endOfFile m.line), m.offset, m.offset⟩]
  | 0, ⟨_, _ :: _⟩ => none
  | n + 1, ⟨m, b :: bs⟩ => do
    let (piece, behind) ← step cs ⟨m, b :: bs⟩ b
    let first ← found cs m behind.mark piece
    let more ← scanFrom cs n behind
    return first ++ more

/-- The items of a text and the bytes that they were found in. `none` if a character was taken apart. -/
def scan (source : String) : Option (List Found) :=
  scanFrom source.toList source.utf8ByteSize ⟨.start, source.toByteArray.data.toList⟩

end Bytes

end LoxLang
