import LoxLang.Number.Binary64

/-!
Numbers read from text: 64-bit integers, and decimals with an optional point and exponent. Both readers
take the whole text or nothing.
-/

namespace LoxLang.Decimal

/-- The value of a run of decimal digits. -/
def digitsValue (cs : List Char) : Nat :=
  cs.foldl (fun n c => 10 * n + (c.toNat - '0'.toNat)) 0

/-- Whether a text is a non-empty run of decimal digits. -/
def isDigits (cs : List Char) : Bool :=
  !cs.isEmpty && cs.all Char.isDigit

/-- A sign in front, if there is one, and the rest. -/
def splitSign : List Char → Bool × List Char
  | '-' :: cs => (true, cs)
  | '+' :: cs => (false, cs)
  | cs => (false, cs)

/-- An optionally signed run of digits. -/
def readInt? (cs : List Char) : Option Int :=
  let (negative, ds) := splitSign cs
  if isDigits ds then some (if negative then -(digitsValue ds : Int) else digitsValue ds) else none

/-- The exponent behind a mantissa: nothing, or `e` and an integer. -/
def readExponent? : List Char → Option Int
  | [] => some 0
  | c :: cs => if c == 'e' || c == 'E' then readInt? cs else none

/-- Digits with an optional point, at least one digit in all, and an optional exponent. -/
def readUnsigned? (cs : List Char) : Option (Nat × Int) :=
  let (whole, rest) := (cs.takeWhile Char.isDigit, cs.dropWhile Char.isDigit)
  let (fraction, rest) := match rest with
    | '.' :: r => (r.takeWhile Char.isDigit, r.dropWhile Char.isDigit)
    | r => ([], r)
  if whole.isEmpty && fraction.isEmpty then none
  else (readExponent? rest).map fun e => (digitsValue (whole ++ fraction), e - fraction.length)

/-- A number: a decimal, or one of the names of the values without digits in any case, each with an
optional sign. -/
def readFloat? (cs : List Char) : Option Binary64 :=
  let (negative, body) := splitSign cs
  match readUnsigned? body with
  | some (digits, exponent) => some (Binary64.ofDecimal negative digits exponent)
  | none =>
    let name := String.ofList (body.map Char.toLower)
    if name == "inf" || name == "infinity" then
      some (Binary64.ofMagnitude negative Binary64.infiniteMagnitude)
    else if name == "nan" then some (Binary64.ofMagnitude negative Binary64.nan.magnitude)
    else none

end LoxLang.Decimal
