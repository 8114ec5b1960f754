import LoxLang.Token.Basic

/-!
Token listings as JSON documents, indented by two blanks.
-/

namespace LoxLang

namespace Json

/-- The digits of a character escaped by its number. -/
def hexDigits (c : Char) : List Char :=
  ['0', '0', Nat.digitChar (c.toNat / 16), Nat.digitChar (c.toNat % 16)]

/-- A character inside a string. -/
def escape (c : Char) : List Char :=
  if c = '"' then ['\\', '"']
  else if c = '\\' then ['\\', '\\']
  else if c = '\n' then ['\\', 'n']
  else if c = '\r' then ['\\', 'r']
  else if c = '\t' then ['\\', 't']
  else if c.toNat = 8 then ['\\', 'b']
  else if c.toNat = 12 then ['\\', 'f']
  else if c.toNat < 0x20 then '\\' :: 'u' :: hexDigits c
  else [c]

def string (s : String) : String :=
  String.ofList ('"' :: (s.toList.flatMap escape ++ ['"']))

end Json

/-- A literal; a number without digits is null. -/
def Literal.json : Literal → String
  | string s => Json.string s
  | number (.int n) => intText n.toInt
  | number (.float x) => FloatNotation.json.write x

namespace Token

/-- The fields of a token, with their values. -/
def fields (t : Token) : List (String × String) :=
  [ ("token_type", Json.string t.kind.name),
    ("lexeme", Json.string t.lexeme),
    ("literal", (t.literal.map Literal.json).getD "null"),
    ("start_line", natText t.span.start.line),
    ("end_line", natText t.span.stop.line),
    ("start_col", natText t.span.start.column),
    ("end_col", natText t.span.stop.column) ]

/-- A token as an object in an array. -/
def json (t : Token) : String :=
  "  \x7b\n" ++ ",\n".intercalate (t.fields.map fun f => "    " ++ Json.string f.1 ++ ": " ++ f.2) ++ "\n  \x7d"

/-- The document that lists some tokens. -/
def document (tokens : List Token) : String :=
  if tokens.isEmpty then "[]" else "[\n" ++ ",\n".intercalate (tokens.map json) ++ "\n]"

end Token

end LoxLang
