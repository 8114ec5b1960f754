import LoxLang.Diagnostic
import LoxLang.Decimal.Reader

/-!
From text to tokens. The text is cut into pieces, each the longest of its kind that begins where the
piece before it ended: gaps (blanks and comments), tokens, and faulty pieces. A faulty piece is reported
and scanning goes on behind it, so every text yields tokens, the last of them the end of the file.
-/

namespace LoxLang

namespace Lexer

/-- What a piece of the text is. -/
inductive Piece where
  | gap
  | token (kind : TokenKind) (literal : Option Literal)
  | fault (cause : LexicalFault)
deriving DecidableEq

/-- A piece, the characters it is made of, and the text behind it. -/
structure Cut where
  piece : Piece
  taken : List Char
  rest : List Char

/-- Letters, digits and the underscore. -/
def isWordChar (c : Char) : Bool :=
  c.isAlphanum || c == '_'

/-- The characters up to and including the end of a block comment that is open `depth + 1` times, and the
text behind it. Comments nest. `none` if the text ends first. -/
def closeComment : Nat → List Char → List Char → Option (List Char × List Char)
  | _, _, [] => none
  | depth, seen, '/' :: '*' :: cs => closeComment (depth + 1) ('*' :: '/' :: seen) cs
  | 0, seen, '*' :: '/' :: cs => some (('/' :: '*' :: seen).reverse, cs)
  | depth + 1, seen, '*' :: '/' :: cs => closeComment depth ('/' :: '*' :: seen) cs
  | depth, seen, c :: cs => closeComment depth (c :: seen) cs

/-- The value of a number token: a run of digits is an integer if it fits, and otherwise, like digits
with a fraction, a double precision number. -/
def numberLiteral (whole fraction : List Char) : Literal :=
  let n := Decimal.digitsValue whole
  .number <|
    if fraction.isEmpty then
      (Number.ofInt? n).getD (.float (Binary64.ofDecimal false n 0))
    else
      .float (Binary64.ofDecimal false (Decimal.digitsValue (whole ++ fraction)) (-fraction.length))

/-- Digits, and a point with further digits if there are any. -/
def cutNumber (cs : List Char) : Cut :=
  let whole := cs.takeWhile Char.isDigit
  match cs.dropWhile Char.isDigit with
  | '.' :: rest =>
    let fraction := rest.takeWhile Char.isDigit
    if fraction.isEmpty then ⟨.token .number (some (numberLiteral whole [])), whole, '.' :: rest⟩
    else
      ⟨.token .number (some (numberLiteral whole fraction)), whole ++ '.' :: fraction,
        rest.dropWhile Char.isDigit⟩
  | rest => ⟨.token .number (some (numberLiteral whole [])), whole, rest⟩

/-- Everything up to the quote that opened the string. -/
def cutString (quote : Char) (cs : List Char) : Cut :=
  let body := cs.takeWhile (· != quote)
  match cs.dropWhile (· != quote) with
  | [] => ⟨.fault .unterminatedString, quote :: body, []⟩
  | q :: rest => ⟨.token .string (some (.string (String.ofList body))), quote :: (body ++ [q]), rest⟩

def cutWord (cs : List Char) : Cut :=
  let word := cs.takeWhile isWordChar
  ⟨.token (.ofWord (String.ofList word)) none, word, cs.dropWhile isWordChar⟩

/-- A line comment ends before its line feed. -/
def cutLineComment (cs : List Char) : Cut :=
  ⟨.gap, '/' :: '/' :: cs.takeWhile (· != '\n'), cs.dropWhile (· != '\n')⟩

def cutBlockComment (cs : List Char) : Cut :=
  match closeComment 0 [] cs with
  | some (taken, rest) => ⟨.gap, '/' :: '*' :: taken, rest⟩
  | none => ⟨.fault .unterminatedComment, '/' :: '*' :: cs, []⟩

/-- The tokens of one character. -/
def single? : Char → Option TokenKind
  | '(' => some .leftParen
  | ')' => some .rightParen
  | '\x7b' => some .leftBrace
  | '\x7d' => some .rightBrace
  | ',' => some .comma
  | '.' => some .dot
  | '-' => some .minus
  | '+' => some .plus
  | ';' => some .semicolon
  | '/' => some .slash
  | '*' => some .star
  | '^' => some .caret
  | '%' => some .percent
  | '\\' => some .backSlash
  | '!' => some .bang
  | '=' => some .equal
  | '<' => some .less
  | '>' => some .greater
  | _ => none

/-- The tokens that an operator character forms with an equals sign behind it. -/
def double? : Char → Option TokenKind
  | '!' => some .bangEqual
  | '=' => some .equalEqual
  | '<' => some .lessEqual
  | '>' => some .greaterEqual
  | _ => none

/-- A token of one or two punctuation characters, or a character that begins nothing. -/
def cutPunctuation (c : Char) (cs : List Char) : Cut :=
  match double? c, cs with
  | some kind, '=' :: rest => ⟨.token kind none, [c, '='], rest⟩
  | _, _ =>
    match single? c with
    | some kind => ⟨.token kind none, [c], cs⟩
    | none => ⟨.fault (.unsupported c), [c], cs⟩

/-- The first piece of a text that begins with `c`. -/
def cut (c : Char) (cs : List Char) : Cut :=
  if c == ' ' || c == '\r' || c == '\t' || c == '\n' then ⟨.gap, [c], cs⟩
  else if c == '"' || c == '\'' then cutString c cs
  else if c.isDigit then cutNumber (c :: cs)
  else if isWordChar c then cutWord (c :: cs)
  else if c == '/' then
    match cs with
    | '/' :: rest => cutLineComment rest
    | '*' :: rest => cutBlockComment rest
    | _ => cutPunctuation c cs
  else cutPunctuation c cs

/-- Where a fault of a piece between two places is reported: at the unsupported character, at the
beginning of the last line for a string, and at the last character for a comment. -/
def faultPosition (start stop : Position) : LexicalFault → Position
  | .unsupported _ => start
  | .unterminatedString => ⟨stop.line, 0⟩
  | .unterminatedComment => ⟨stop.line, stop.column - 1⟩

/-- Cuts the text piece by piece; each piece has a character, so as many pieces as there are characters
are enough. -/
def scanFrom : Nat → Position → List Char → Array (Except Diagnostic Token) →
    Array (Except Diagnostic Token)
  | n + 1, start, c :: cs, items =>
    let piece := cut c cs
    let stop := start.advance piece.taken
    match piece.piece with
    | .gap => scanFrom n stop piece.rest items
    | .token kind literal =>
      scanFrom n stop piece.rest
        (items.push (.ok ⟨kind, String.ofList piece.taken, literal, ⟨start, stop⟩⟩))
    | .fault cause =>
      scanFrom n stop piece.rest
        (items.push (.error ⟨faultPosition start stop cause, .lexical cause, none⟩))
  | _, start, _, items => items.push (.ok (.endOfFile start.line))

end Lexer

/-- Tokens and faults of a text, in order; the last item is the end of the file. -/
def scan (source : String) : Array (Except Diagnostic Token) :=
  let cs := source.toList
  Lexer.scanFrom cs.length .start cs #[]

/-- The token that an item is. -/
def Lexer.token? : Except Diagnostic Token → Option Token
  | .ok t => some t
  | .error _ => none

/-- The fault that an item is. -/
def Lexer.fault? : Except Diagnostic Token → Option Diagnostic
  | .ok _ => none
  | .error d => some d

/-- The tokens of a text. -/
def tokens (source : String) : List Token :=
  (scan source).toList.filterMap Lexer.token?

/-- The faults of a text. -/
def lexicalFaults (source : String) : List Diagnostic :=
  (scan source).toList.filterMap Lexer.fault?

end LoxLang
