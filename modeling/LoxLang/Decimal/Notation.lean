import LoxLang.Decimal.Shortest

/-!
How integers and decimals are written in base ten. A decimal is written positionally or with an exponent, with
signs and paddings or without, and something stands for the numbers that have no digits. All choices of one
format are the fields of one `FloatNotation`.
-/

namespace LoxLang

/-- Text of a natural number in base ten. -/
def natText (n : Nat) : String :=
  String.ofList (Nat.toDigits 10 n)

/-- Text of an integer: a minus sign for negative numbers only. -/
def intText (n : Int) : String :=
  if n < 0 then "-" ++ natText n.natAbs else natText n.natAbs

/-- A way of writing double precision numbers. -/
structure FloatNotation where
  /-- Least power of ten of a leading digit that is written positionally. -/
  positionalFrom : Int
  /-- First power of ten of a leading digit that is written with an exponent again. -/
  positionalBelow : Int
  /-- Whether a non-negative exponent has a plus sign. -/
  exponentPlus : Bool
  /-- Least number of digits of an exponent. -/
  exponentWidth : Nat
  tie : Decimal.Tie
  nan : String
  infinity : String
  negativeInfinity : String

namespace FloatNotation

/-- The text of a run of zeros. -/
def zeros (n : Nat) : String :=
  String.ofList (List.replicate n '0')

/-- Digits `ds` with the point behind the digit of power `lead - ds.length + 1 … 0`; there is always a
digit on each side of the point. -/
def positional (ds : List Char) (lead : Int) : String :=
  if lead < 0 then
    "0." ++ zeros ((-lead).toNat - 1) ++ String.ofList ds
  else
    let whole := lead.toNat + 1
    if ds.length ≤ whole then
      String.ofList ds ++ zeros (whole - ds.length) ++ ".0"
    else
      String.ofList (ds.take whole) ++ "." ++ String.ofList (ds.drop whole)

/-- One digit before the point, the others behind it if there are any, then the exponent. -/
def scientific (f : FloatNotation) (ds : List Char) (lead : Int) : String :=
  let mantissa := match ds with
    | [] => ""
    | [d] => String.ofList [d]
    | d :: rest => String.ofList (d :: '.' :: rest)
  let sign := if lead < 0 then "-" else if f.exponentPlus then "+" else ""
  let power := natText lead.natAbs
  mantissa ++ "e" ++ sign ++ zeros (f.exponentWidth - power.length) ++ power

/-- Text of a finite number without its sign. -/
def decimal (f : FloatNotation) (d : Decimal) : String :=
  let ds := Nat.toDigits 10 d.digits
  let lead := d.exponent + (ds.length - 1 : Nat)
  if d.digits = 0 ∨ (f.positionalFrom ≤ lead ∧ lead < f.positionalBelow) then positional ds lead
  else f.scientific ds lead

/-- Text of a number. -/
def write (f : FloatNotation) (x : Binary64) : String :=
  if x.isNaN then f.nan
  else if x.isInfinite then
    if x.isNegative then f.negativeInfinity else f.infinity
  else
    let text := f.decimal (Decimal.shortest f.tie x)
    if x.isNegative then "-" ++ text else text

/-- How the language prints a number: positional from a ten-thousandth up to `10 ^ 16`, else an exponent
with a sign and at least two digits. -/
def printed : FloatNotation :=
  { positionalFrom := -4, positionalBelow := 16, exponentPlus := true, exponentWidth := 2, tie := .up
    nan := "nan", infinity := "inf", negativeInfinity := "-inf" }

/-- How a token listing shows a literal: the same digits, with a bare exponent. -/
def listed : FloatNotation :=
  { printed with exponentPlus := false, exponentWidth := 1, nan := "NaN" }

/-- How a JSON document holds a number; numbers without digits are `null`. -/
def json : FloatNotation :=
  { positionalFrom := -5, positionalBelow := 16, exponentPlus := true, exponentWidth := 1, tie := .even
    nan := "null", infinity := "null", negativeInfinity := "null" }

end FloatNotation

/-- The printed text of a number. -/
def Binary64.text (x : Binary64) : String :=
  FloatNotation.printed.write x

end LoxLang
