import LoxLang.Diagnostic
import LoxLang.Value.Equality

/-!
Statistics of a list of numbers, and the most common one of a list of values.
-/

namespace LoxLang.Sample

/-- The sum from left to right, as a double precision number; of nothing it is negative zero. -/
def sum (xs : List Binary64) : Binary64 :=
  xs.foldl Binary64.add .negativeZero

/-- The number of elements of a list as a double precision number. -/
def count {α : Type} (xs : List α) : Binary64 :=
  Binary64.ofInt xs.length

/-- The sum of a list of integers, if no partial sum from the left leaves the 64-bit range. -/
def intSum? (ns : List Number) : Option Int :=
  ns.foldlM (fun total n =>
    match n with
    | .int m => (Number.ofInt? (total + m.toInt)).map fun _ => total + m.toInt
    | .float _ => none) 0

/-- Arithmetic mean. Integers with a whole mean give an integer. -/
def mean (ns : List Number) : Except NativeFault Number :=
  if ns.isEmpty then .error (.noData .mean)
  else
    let quotient := Number.float ((sum (ns.map Number.toBinary64)).div (count ns))
    match intSum? ns with
    | some total =>
      if total % ns.length = 0 then .ok ((Number.ofInt? (total / ns.length)).getD quotient)
      else .ok quotient
    | none => .ok quotient

/-- The middle number in the order of the double precision numbers; equal ones keep their places. The two
middle numbers of an even count are averaged. -/
def median (ns : List Number) : Except NativeFault Number :=
  let sorted := ns.mergeSort fun a b =>
    decide (a.toBinary64.totalKey ≤ b.toBinary64.totalKey)
  let middle := sorted.length / 2
  match sorted[middle]? with
  | none => .error (.noData .median)
  | some upper =>
    if sorted.length % 2 = 1 then .ok upper
    else match sorted[middle - 1]? with
      | none => .error (.noData .median)
      | some lower =>
        .ok (.float ((sum [lower.toBinary64, upper.toBinary64]).div (Binary64.ofInt 2)))

/-- Counts the values that are equal to one seen before with that one. -/
def tally (h : Heap) : List Value → List (Value × Nat) → List (Value × Nat)
  | [], counts => counts
  | v :: rest, counts => tally h rest (add v counts)
where
  /-- One more of a value. -/
  add (v : Value) : List (Value × Nat) → List (Value × Nat)
    | [] => [(v, 1)]
    | (seen, n) :: counts =>
      if seen.equal h v then (seen, n + 1) :: counts else (seen, n) :: add v counts

/-- The entry with the greater count, of equal counts the first. -/
def leading : Option (Value × Nat) → Value × Nat → Option (Value × Nat)
  | none, entry => some entry
  | some best, entry => if best.2 < entry.2 then some entry else some best

/-- The most common value, of equally common ones the first. -/
def mode (h : Heap) (vs : List Value) : Except NativeFault Value :=
  match (tally h vs []).foldl leading none with
  | some (v, _) => .ok v
  | none => .error (.noData .mode)

/-- Sample standard deviation. -/
def deviation (ns : List Number) : Except NativeFault Binary64 :=
  if ns.length < 2 then .error (.noData .deviation)
  else
    let xs := ns.map Number.toBinary64
    let n := count ns
    let center := (sum xs).div n
    let squares := sum (xs.map fun x => (x.sub center).mul (x.sub center))
    .ok (squares.div (n.sub (Binary64.ofInt 1))).sqrt

end LoxLang.Sample
