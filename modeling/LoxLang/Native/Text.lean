import LoxLang.Decimal.Reader
import LoxLang.Native.Arguments
import LoxLang.Text.Blank

/-!
Native functions on strings.
-/

namespace LoxLang.Native

/-- The number of characters of a string or of items of an array. -/
def length (h : Heap) : Value → Except NativeFault Nat
  | .string s => .ok s.length
  | .array id => .ok (h.items id).size
  | v => .error (.noLength v.typeName)

/-- The code point of a string of one character. -/
def codePoint : Value → Except NativeFault Nat
  | .string s =>
    match s.toList with
    | [c] => .ok c.toNat
    | cs => .error (.notOneCharacter cs.length)
  | v => .error (.notText v.typeName)

/-- A string of one character for each character. -/
def characters (s : String) : List Value :=
  s.toList.map fun c => .string c.toString

/-- The number that a text between blanks stands for: an integer if it is one that fits in 64 bits. -/
def readNumber (text : String) : Except NativeFault Number :=
  let cs := Text.trim text.toList
  match (Decimal.readInt? cs).bind Number.ofInt? with
  | some n => .ok n
  | none =>
    match Decimal.readFloat? cs with
    | some x => .ok (.float x)
    | none => .error (.notNumeric text)

end LoxLang.Native
