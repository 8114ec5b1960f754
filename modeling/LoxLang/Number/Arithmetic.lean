import LoxLang.Decimal.Notation

/-!
Numbers of the language: 64-bit integers and double precision numbers. An operation on two integers is
done on mathematical integers and stays an integer if the result fits; otherwise, and when one operand
is a double precision number, both are converted and the machine operation is used.
-/

namespace LoxLang

inductive Number where
  | int (n : Int64)
  | float (x : Binary64)
deriving DecidableEq, Inhabited

namespace Number

/-- The printed text of a number. -/
def text : Number → String
  | int n => intText n.toInt
  | float x => x.text

/-- An integer that fits in 64 bits, as a number. -/
def ofInt? (z : Int) : Option Number :=
  if -(twoTo 63 : Int) ≤ z ∧ z < twoTo 63 then some (int (Int64.ofInt z)) else none

def toBinary64 : Number → Binary64
  | int n => Binary64.ofInt n.toInt
  | float x => x

/-- Equality of the language: an integer and a double precision number are never equal. -/
def equal : Number → Number → Bool
  | int a, int b => a == b
  | float x, float y => x.numericEq y
  | _, _ => false

/-- The order of two numbers: integers are compared exactly, mixed operands as double precision numbers.
A NaN is not comparable. -/
def compare? : Number → Number → Option Ordering
  | int a, int b => some (compare a.toInt b.toInt)
  | a, b => a.toBinary64.compare? b.toBinary64

def neg : Number → Number
  | int n => (ofInt? (-n.toInt)).getD (float (Binary64.ofInt n.toInt).neg)
  | float x => float x.neg

def abs : Number → Number
  | int n => (ofInt? n.toInt.natAbs).getD (float (Binary64.ofInt n.toInt).abs)
  | float x => float x.abs

/-- A double precision number with an integral value as an integer if it fits. -/
def ofIntegral (x : Binary64) (z : Int) : Number :=
  if x.isFinite then (ofInt? z).getD (float x) else float x

def floor : Number → Number
  | int n => int n
  | float x => ofIntegral x.floor x.floorInt

def ceil : Number → Number
  | int n => int n
  | float x => ofIntegral x.ceil x.ceilInt

end Number

/-- The arithmetic operations with two operands. -/
inductive Arithmetic where
  | add | sub | mul | div | floorDiv | rem | pow
deriving DecidableEq, Inhabited

namespace Arithmetic

/-- `a ^ b` for an exponent below `2 ^ 32`, if the power can fit in 64 bits. -/
def intPow? (a b : Int) : Option Int :=
  if b < 0 ∨ (twoTo 32 : Int) ≤ b then none
  else if a.natAbs ≤ 1 then some (if b = 0 then 1 else a.pow (2 - b.toNat % 2))
  else if 64 ≤ b then none
  else some (a.pow b.toNat)

/-- The floor quotient: the quotient rounded towards zero, less one if it is not exact and the operands differ
in sign. -/
def floorQuotient (a b : Int) : Int :=
  if a.tmod b ≠ 0 ∧ decide (a < 0) ≠ decide (b < 0) then a.tdiv b - 1 else a.tdiv b

/-- The exact result on integers of the operations that stay integral. A remainder is given only where
the truncated quotient fits in 64 bits too. -/
def onInts? : Arithmetic → Int → Int → Option Int
  | add, a, b => some (a + b)
  | sub, a, b => some (a - b)
  | mul, a, b => some (a * b)
  | div, _, _ => none
  | floorDiv, a, b => if b = 0 then none else some (floorQuotient a b)
  | rem, a, b => if b = 0 ∨ (Number.ofInt? (a.tdiv b)).isNone then none else some (a.tmod b)
  | pow, a, b => intPow? a b

/-- The result on double precision numbers. Every kind of division by zero is a NaN. -/
def onFloats : Arithmetic → Binary64 → Binary64 → Binary64
  | add, x, y => x.add y
  | sub, x, y => x.sub y
  | mul, x, y => x.mul y
  | div, x, y => if y.isZero then .nan else x.div y
  | floorDiv, x, y => if y.isZero then .nan else (x.div y).floor
  | rem, x, y => if y.isZero then .nan else x.rem y
  | pow, x, y => x.pow y

/-- The result on two numbers. -/
def apply (op : Arithmetic) : Number → Number → Number
  | .int a, .int b =>
    ((op.onInts? a.toInt b.toInt).bind Number.ofInt?).getD
      (.float (op.onFloats (Binary64.ofInt a.toInt) (Binary64.ofInt b.toInt)))
  | a, b => .float (op.onFloats a.toBinary64 b.toBinary64)

end Arithmetic

end LoxLang
