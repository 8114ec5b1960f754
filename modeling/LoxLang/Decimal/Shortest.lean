import LoxLang.Number.Binary64

/-!
The shortest decimal that reads back. A finite positive number owns the interval of reals that round to
it; the grids of decimals with one, two, three, … digits are tried in turn, and the first grid with a
point inside the interval gives the digits. Only the two grid points next to the number matter: if any
point of a grid lies in the interval, so does one of these two.
-/

namespace LoxLang

/-- The number `digits * 10 ^ exponent`. -/
structure Decimal where
  digits : Nat
  exponent : Int
deriving DecidableEq, Inhabited

namespace Decimal

/-- Which of two equally near decimals is taken. -/
inductive Tie where
  | up
  | even
deriving DecidableEq

/-- The same number without trailing zeros; the first argument bounds how many are removed. -/
def strip : Nat → Decimal → Decimal
  | 0, d => d
  | n + 1, d =>
    if d.digits ≠ 0 ∧ d.digits % 10 = 0 then strip n ⟨d.digits / 10, d.exponent + 1⟩ else d

/-- The reals that round to `m * 2 ^ q`, in units of `2 ^ (q - 2)`: the number itself is at `4 * m`.
The half step below is shorter at the first number of a binade, and the ends belong to the interval
if the significand is even. -/
structure Interval where
  low : Nat
  value : Nat
  high : Nat
  closed : Bool

def Interval.around (x : Binary64) : Interval :=
  let m := x.significand
  let narrow := m == twoTo 52 && decide (-1074 < x.exponent)
  { low := if narrow then 4 * m - 1 else 4 * m - 2
    value := 4 * m
    high := 4 * m + 2
    closed := m % 2 == 0 }

/-- Whether `c * s` lies in the interval scaled by `t`. -/
def Interval.has (i : Interval) (t s c : Nat) : Bool :=
  if i.closed then decide (i.low * t ≤ c * s ∧ c * s ≤ i.high * t)
  else decide (i.low * t < c * s ∧ c * s < i.high * t)

/-- The point of the grid of step `10 ^ e` that lies in the interval and is nearest to its value, if one
does. The factors `s` and `t` clear the denominators of `10 ^ e` and of the unit `2 ^ u`. -/
def Interval.onGrid? (i : Interval) (u : Int) (tie : Tie) (e : Int) : Option Nat :=
  let s := tenTo e.toNat * twoTo (-u).toNat
  let t := tenTo (-e).toNat * twoTo u.toNat
  let c := i.value * t / s
  match i.has t s c, i.has t s (c + 1) with
  | true, true =>
    let twice := 2 * (i.value * t)
    let middle := (2 * c + 1) * s
    if twice < middle then some c
    else if middle < twice then some (c + 1)
    else match tie with
      | .up => some (c + 1)
      | .even => some (c + c % 2)
  | true, false => some c
  | false, true => some (c + 1)
  | false, false => none

/-- The first hit on the grids of steps `10 ^ e`, `10 ^ (e - 1)`, …, of which `n` are tried. -/
def Interval.firstGrid (i : Interval) (u : Int) (tie : Tie) : Nat → Int → Decimal
  | 0, e => ⟨0, e⟩
  | n + 1, e =>
    match i.onGrid? u tie e with
    | some c => ⟨c, e⟩
    | none => i.firstGrid u tie n (e - 1)

/-- The decimal with the fewest digits that rounds to a finite number `x` up to its sign, and of these the
nearest to `x`. On the grid of step `10 ^ min 0 q` the number itself is a point, so the search never
runs out of grids. -/
def shortest (tie : Tie) (x : Binary64) : Decimal :=
  if x.isZero then ⟨0, 0⟩
  else
    let i := Interval.around x
    let u := x.exponent - 2
    let top := ((x.significand.log2 : Int) + x.exponent + 1) * 30103 / 100000 + 1
    let grids := (top - min u 0).toNat + 1
    strip 400 (i.firstGrid u tie grids top)

end Decimal

end LoxLang
