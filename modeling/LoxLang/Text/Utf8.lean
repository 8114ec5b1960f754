/-!
Reading bytes as UTF-8. A fault names the longest valid beginning of the bytes, and the number of bytes
behind it that no continuation can repair; at the end of the bytes more of them might have repaired it.
-/

namespace LoxLang.Text

/-- Why bytes are not UTF-8. -/
structure Utf8Fault where
  /-- The number of bytes that are valid. -/
  index : Nat
  /-- The number of faulty bytes behind them, or `none` if the bytes only end too early. -/
  length : Option Nat
deriving DecidableEq, Inhabited

/-- The number of continuation bytes that a leading byte asks for, the payload it carries, and the range
of the first continuation byte, which shuts out overlong forms, surrogates and numbers beyond Unicode. -/
def utf8Lead? (b : Nat) : Option (Nat × Nat × Nat × Nat) :=
  if b < 0x80 then some (0, b, 0, 0)
  else if 0xC2 ≤ b ∧ b ≤ 0xDF then some (1, b - 0xC0, 0x80, 0xBF)
  else if b = 0xE0 then some (2, 0, 0xA0, 0xBF)
  else if b = 0xED then some (2, 0xD, 0x80, 0x9F)
  else if 0xE1 ≤ b ∧ b ≤ 0xEF then some (2, b - 0xE0, 0x80, 0xBF)
  else if b = 0xF0 then some (3, 0, 0x90, 0xBF)
  else if 0xF1 ≤ b ∧ b ≤ 0xF3 then some (3, b - 0xF0, 0x80, 0xBF)
  else if b = 0xF4 then some (3, 4, 0x80, 0x8F)
  else none

/-- Reads `n` continuation bytes, the first of them within a range. `seen` bytes of the character have been
read. The answer is the code point and the rest, or the length of the fault. -/
def utf8Tail : Nat → Nat → Nat → Nat → Nat → List UInt8 → Except (Option Nat) (Nat × List UInt8)
  | 0, _, _, _, value, bytes => .ok (value, bytes)
  | _ + 1, _, _, _, _, [] => .error none
  | n + 1, seen, low, high, value, b :: bytes =>
    if low ≤ b.toNat ∧ b.toNat ≤ high then
      utf8Tail n (seen + 1) 0x80 0xBF (64 * value + (b.toNat - 0x80)) bytes
    else .error (some seen)

/-- Decodes from a place on; the first argument bounds the number of characters. -/
def utf8From : Nat → Nat → List UInt8 → List Char → Except Utf8Fault (List Char)
  | n + 1, index, b :: bytes, chars =>
    match utf8Lead? b.toNat with
    | none => .error ⟨index, some 1⟩
    | some (more, payload, low, high) =>
      match utf8Tail more 1 low high payload bytes with
      | .ok (value, rest) => utf8From n (index + 1 + more) rest (Char.ofNat value :: chars)
      | .error length => .error ⟨index, length⟩
  | _, _, _, chars => .ok chars.reverse

/-- The text of bytes in UTF-8. -/
def decodeUtf8 (bytes : List UInt8) : Except Utf8Fault String :=
  (utf8From bytes.length 0 bytes []).map String.ofList

end LoxLang.Text
