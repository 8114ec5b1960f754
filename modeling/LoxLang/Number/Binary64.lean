/-!
Double precision numbers as bit patterns. A pattern splits into a sign and a magnitude, and the
magnitude read as a natural number is increasing in the absolute value it stands for; comparison,
rounding to nearest and decoding are all said on magnitudes, in exact integer arithmetic. Addition,
subtraction, multiplication, division and square root go through the machine's own operations.
A pattern keeps the sign of a NaN, which the total order sees.
-/

namespace LoxLang

/-! ### Powers -/

/-- A power of two. -/
def twoTo (n : Nat) : Nat := Nat.pow 2 n

/-- A power of ten. -/
def tenTo (n : Nat) : Nat := Nat.pow 10 n

/-! ### Patterns -/

/-- A double precision number, given by its 64 bits. -/
structure Binary64 where
  bits : UInt64
deriving DecidableEq, Inhabited

namespace Binary64

/-- The magnitude of infinity; a larger magnitude is a NaN. -/
def infiniteMagnitude : Nat := 0x7FF0000000000000

/-- The bits below the sign bit. -/
def magnitude (x : Binary64) : Nat :=
  x.bits.toNat % twoTo 63

/-- Whether the sign bit is set, for zeros and NaNs too. -/
def isNegative (x : Binary64) : Bool :=
  decide (twoTo 63 ≤ x.bits.toNat)

/-- The number with the given sign and magnitude. -/
def ofMagnitude (negative : Bool) (magnitude : Nat) : Binary64 :=
  ⟨UInt64.ofNat ((if negative then twoTo 63 else 0) + magnitude)⟩

def isNaN (x : Binary64) : Bool :=
  decide (infiniteMagnitude < x.magnitude)

def isInfinite (x : Binary64) : Bool :=
  decide (x.magnitude = infiniteMagnitude)

def isFinite (x : Binary64) : Bool :=
  decide (x.magnitude < infiniteMagnitude)

def isZero (x : Binary64) : Bool :=
  decide (x.magnitude = 0)

def zero : Binary64 := ofMagnitude false 0
def negativeZero : Binary64 := ofMagnitude true 0
def infinity : Binary64 := ofMagnitude false infiniteMagnitude

/-- The NaN that a program can name. -/
def nan : Binary64 := ofMagnitude false 0x7FF8000000000000

/-- The NaN of an invalid operation such as `∞ - ∞`; its sign bit is set. -/
def invalid : Binary64 := ofMagnitude true 0x7FF8000000000000

/-- A finite number is `significand * 2 ^ exponent`, up to its sign. -/
def significand (x : Binary64) : Nat :=
  let fraction := x.magnitude % twoTo 52
  if x.magnitude < twoTo 52 then fraction else fraction + twoTo 52

@[inherit_doc significand]
def exponent (x : Binary64) : Int :=
  if x.magnitude < twoTo 52 then -1074 else (x.magnitude / twoTo 52 : Nat) - 1075

/-! ### Rounding -/

/-- The natural number nearest to `num / den`; of two, the even one. -/
def roundQuotient (num den : Nat) : Nat :=
  let floor := num / den
  let twice := 2 * (num % den)
  if twice < den then floor
  else if den < twice then floor + 1
  else floor + floor % 2

/-- The largest `k` with `2 ^ k ≤ num / den`, for positive `num` and `den`. -/
def floorLog2 (num den : Nat) : Int :=
  let k : Int := (num.log2 : Int) - den.log2
  if den * twoTo k.toNat ≤ num * twoTo (-k).toNat then k else k - 1

/-- The magnitude nearest to `num / den`, of two the even one. The unit in the last place is
`2 ^ q`, and counting in that unit from the first number of the binade makes the carry into the
next binade, the step from subnormal to normal numbers and overflow one and the same addition. -/
def nearestMagnitude (num den : Nat) : Nat :=
  if num = 0 then 0
  else
    let q : Int := max (floorLog2 num den - 52) (-1074)
    let m := roundQuotient (num * twoTo (-q).toNat) (den * twoTo q.toNat)
    min ((q + 1074).toNat * twoTo 52 + m) infiniteMagnitude

/-- The number nearest to an integer. -/
def ofInt (n : Int) : Binary64 :=
  ofMagnitude (decide (n < 0)) (nearestMagnitude n.natAbs 1)

/-- The number nearest to `digits * 10 ^ exponent`. Far outside the range of finite numbers the answer
is known without forming the power. -/
def ofDecimal (negative : Bool) (digits : Nat) (exponent : Int) : Binary64 :=
  ofMagnitude negative <|
    if digits = 0 then 0
    else if 400 < exponent then infiniteMagnitude
    else if (digits.log2 : Int) + 1 + exponent < -400 then 0
    else nearestMagnitude (digits * tenTo exponent.toNat) (tenTo (-exponent).toNat)

/-! ### Order -/

/-- An integer that orders the numbers as their values do; both zeros have key 0. -/
def orderKey (x : Binary64) : Int :=
  if x.isNegative then -(x.magnitude : Int) else x.magnitude

/-- The order of two numbers; a NaN is not comparable. -/
def compare? (x y : Binary64) : Option Ordering :=
  if x.isNaN || y.isNaN then none else some (compare x.orderKey y.orderKey)

/-- Numeric equality: the zeros are equal and a NaN equals nothing. -/
def numericEq (x y : Binary64) : Bool :=
  x.compare? y == some .eq

/-- The total order: negative NaNs, the numbers with `-0` before `0`, positive NaNs. -/
def totalKey (x : Binary64) : Int :=
  if x.isNegative then -(x.magnitude : Int) - 1 else x.magnitude

/-! ### Arithmetic -/

def toFloat (x : Binary64) : Float := Float.ofBits x.bits

/-- The result of a machine operation. A NaN operand is passed on, the first one if both are; a NaN
made by the operation itself is `invalid`. -/
def combine (op : Float → Float → Float) (x y : Binary64) : Binary64 :=
  let z := op x.toFloat y.toFloat
  if z.isNaN then
    if x.isNaN then x else if y.isNaN then y else invalid
  else ⟨z.toBits⟩

def add : Binary64 → Binary64 → Binary64 := combine (· + ·)
def sub : Binary64 → Binary64 → Binary64 := combine (· - ·)
def mul : Binary64 → Binary64 → Binary64 := combine (· * ·)
def div : Binary64 → Binary64 → Binary64 := combine (· / ·)
def pow : Binary64 → Binary64 → Binary64 := combine Float.pow

def neg (x : Binary64) : Binary64 := ofMagnitude (!x.isNegative) x.magnitude
def abs (x : Binary64) : Binary64 := ofMagnitude false x.magnitude

def sqrt (x : Binary64) : Binary64 :=
  let z := x.toFloat.sqrt
  if z.isNaN then if x.isNaN then x else invalid else ⟨z.toBits⟩

/-- The largest integer that is at most a finite number. -/
def floorInt (x : Binary64) : Int :=
  let m : Int := if x.isNegative then -(x.significand : Int) else x.significand
  (m * twoTo x.exponent.toNat).fdiv (twoTo (-x.exponent).toNat)

/-- The least integer that is at least a finite number. -/
def ceilInt (x : Binary64) : Int :=
  -(neg x).floorInt

/-- Rounds a finite number by `toInt` and keeps the sign of a zero result; NaNs and infinities stay. -/
def roundWith (toInt : Binary64 → Int) (x : Binary64) : Binary64 :=
  if x.isFinite then
    if toInt x = 0 then ofMagnitude x.isNegative 0 else ofInt (toInt x)
  else x

def floor : Binary64 → Binary64 := roundWith floorInt
def ceil : Binary64 → Binary64 := roundWith ceilInt

/-- The exact remainder of the truncated quotient: it has the dividend's sign and is smaller than the
divisor. -/
def rem (x y : Binary64) : Binary64 :=
  if x.isNaN then x
  else if y.isNaN then y
  else if x.isInfinite || y.isZero then invalid
  else if y.isInfinite then x
  else
    let e := min x.exponent y.exponent
    let r := (x.significand * twoTo (x.exponent - e).toNat) % (y.significand * twoTo (y.exponent - e).toNat)
    ofMagnitude x.isNegative (nearestMagnitude (r * twoTo e.toNat) (twoTo (-e).toNat))

end Binary64

end LoxLang
