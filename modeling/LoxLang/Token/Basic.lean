import LoxLang.Number.Arithmetic

/-!
Tokens: what kind of word the source holds, its text, the value of a literal, and where it stands.
Lines and columns count from zero, and columns count characters.
-/

namespace LoxLang

/-- A place in a source text. -/
structure Position where
  line : Nat
  column : Nat
deriving DecidableEq, Inhabited

namespace Position

/-- The beginning of a text. -/
def start : Position := ⟨0, 0⟩

/-- The place behind a character: a line feed opens a new line. -/
def next (p : Position) (c : Char) : Position :=
  if c = '\n' then ⟨p.line + 1, 0⟩ else ⟨p.line, p.column + 1⟩

/-- The place behind a run of characters. -/
def advance (p : Position) (cs : List Char) : Position :=
  cs.foldl next p

theorem advance_append (p : Position) (a b : List Char) :
    p.advance (a ++ b) = (p.advance a).advance b := by
  simp [advance, List.foldl_append]

end Position

/-- From the first character of a token to the place behind its last one. -/
structure Span where
  start : Position
  stop : Position
deriving DecidableEq, Inhabited

inductive TokenKind where
  | leftParen | rightParen | leftBrace | rightBrace
  | comma | dot | minus | plus | semicolon | slash | backSlash | star | caret | percent
  | bang | bangEqual | equal | equalEqual | greater | greaterEqual | less | lessEqual
  | identifier | string | number
  | kwAnd | kwBreak | kwClass | kwContinue | kwElse | kwFalse | kwFun | kwFor | kwIf | kwNil | kwOr
  | kwPrint | kwReturn | kwSuper | kwThis | kwTrue | kwVar | kwWhile
  | eof
deriving DecidableEq, Inhabited

namespace TokenKind

/-- The name of a kind in token listings. -/
def name : TokenKind → String
  | leftParen => "LEFT_PAREN"
  | rightParen => "RIGHT_PAREN"
  | leftBrace => "LEFT_BRACE"
  | rightBrace => "RIGHT_BRACE"
  | comma => "COMMA"
  | dot => "DOT"
  | minus => "MINUS"
  | plus => "PLUS"
  | semicolon => "SEMICOLON"
  | slash => "SLASH"
  | backSlash => "BACK_SLASH"
  | star => "STAR"
  | caret => "CARAT"
  | percent => "PERCENT"
  | bang => "BANG"
  | bangEqual => "BANG_EQUAL"
  | equal => "EQUAL"
  | equalEqual => "EQUAL_EQUAL"
  | greater => "GREATER"
  | greaterEqual => "GREATER_EQUAL"
  | less => "LESS"
  | lessEqual => "LESS_EQUAL"
  | identifier => "IDENTIFIER"
  | string => "STRING"
  | number => "NUMBER"
  | kwAnd => "AND"
  | kwBreak => "BREAK"
  | kwClass => "CLASS"
  | kwContinue => "CONTINUE"
  | kwElse => "ELSE"
  | kwFalse => "FALSE"
  | kwFun => "FUN"
  | kwFor => "FOR"
  | kwIf => "IF"
  | kwNil => "NIL"
  | kwOr => "OR"
  | kwPrint => "PRINT"
  | kwReturn => "RETURN"
  | kwSuper => "SUPER"
  | kwThis => "THIS"
  | kwTrue => "TRUE"
  | kwVar => "VAR"
  | kwWhile => "WHILE"
  | eof => "EOF"

/-- The kind of a word: one of the keywords, or an identifier. -/
def ofWord (word : String) : TokenKind :=
  match word with
  | "and" => kwAnd
  | "break" => kwBreak
  | "class" => kwClass
  | "continue" => kwContinue
  | "else" => kwElse
  | "false" => kwFalse
  | "fun" => kwFun
  | "for" => kwFor
  | "if" => kwIf
  | "nil" => kwNil
  | "or" => kwOr
  | "print" => kwPrint
  | "return" => kwReturn
  | "super" => kwSuper
  | "this" => kwThis
  | "true" => kwTrue
  | "var" => kwVar
  | "while" => kwWhile
  | _ => identifier

end TokenKind

/-- The value that a string or number token stands for. -/
inductive Literal where
  | string (s : String)
  | number (n : Number)
deriving DecidableEq, Inhabited

/-- The text of a literal in token listings. -/
def Literal.text : Literal → String
  | string s => s
  | number (.int n) => intText n.toInt
  | number (.float x) => FloatNotation.listed.write x

structure Token where
  kind : TokenKind
  /-- The text of the token in the source. -/
  lexeme : String
  literal : Option Literal
  span : Span
deriving DecidableEq, Inhabited

namespace Token

/-- Where the token begins. -/
def position (t : Token) : Position :=
  t.span.start

/-- The line of a token in token listings. -/
def listing (t : Token) : String :=
  t.kind.name ++ " " ++ t.lexeme ++ " " ++ (t.literal.map Literal.text).getD "null"

/-- The token behind the last line of a text. -/
def endOfFile (line : Nat) : Token :=
  ⟨.eof, "", none, ⟨⟨line, 0⟩, ⟨line, 0⟩⟩⟩

end Token

end LoxLang
