import LoxLang.Number.Arithmetic

/-!
Functions on two numbers: the larger, the smaller, and floor quotient and remainder together.
-/

namespace LoxLang.Number

/-- The first of two numbers if the test holds of them as double precision numbers, else the second. A
test on a NaN fails. -/
def pick (test : Ordering → Bool) (a b : Number) : Number :=
  match a.toBinary64.compare? b.toBinary64 with
  | some o => if test o then a else b
  | none => b

def maximum : Number → Number → Number := pick fun o => o != .lt
def minimum : Number → Number → Number := pick fun o => o != .gt

/-- Floor quotient and remainder of two double precision numbers; both are NaN for a zero divisor. -/
def floatDivmod (x y : Binary64) : Number × Number :=
  if y.isZero then (float .nan, float .nan)
  else
    let q := (x.div y).floor
    (float q, float (x.sub (q.mul y)))

/-- Whether a remainder has to be moved by the divisor to have the divisor's sign. -/
def strays (r b : Int64) : Bool :=
  r != 0 && decide (r < 0) != decide (b < 0)

/-- Floor quotient and remainder of two integers, from the quotient rounded towards zero: the divisor is
taken off it once more if its remainder strays. `none` if that quotient does not fit in 64 bits. -/
def intDivmod? (a b : Int64) : Option (Int64 × Int64) :=
  if a = Int64.minValue ∧ b = -1 then none
  else
    let q := a / b
    let r := a % b
    if strays r b then some (q - 1, r + b) else some (q, r)

/-- Floor quotient and remainder. On two integers they are integers if the quotient fits in 64 bits. -/
def divmod : Number → Number → Number × Number
  | int a, int b =>
    if b = 0 then floatDivmod (Binary64.ofInt a.toInt) (Binary64.ofInt b.toInt)
    else match intDivmod? a b with
      | some (q, r) => (int q, int r)
      | none => floatDivmod (Binary64.ofInt a.toInt) (Binary64.ofInt b.toInt)
  | a, b => floatDivmod a.toBinary64 b.toBinary64

end LoxLang.Number
