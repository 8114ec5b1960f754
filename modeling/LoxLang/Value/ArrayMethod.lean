import LoxLang.Diagnostic
import LoxLang.Heap.Basic

/-!
The methods of arrays. A method that fails leaves every array as it is; one that succeeds changes no array
but its receiver.
-/

namespace LoxLang.ArrayMethod

/-- The place that an index names in an array of some length: a negative index counts from the end. `none`
if there is no such place. -/
def position (length : Nat) : Value → Except NativeFault (Option Nat)
  | .number (.int n) =>
    let i := if n.toInt < 0 then n.toInt + length else n.toInt
    .ok (if 0 ≤ i ∧ i < length then some i.toNat else none)
  | v => .error (.indexNotInteger v.typeName)

/-- A bound of a slice: nil for none, or a natural number. -/
def bound : Value → Except NativeFault (Option Nat)
  | .nil => .ok none
  | .number (.int n) =>
    if 0 ≤ n.toInt then .ok (some n.toInt.toNat) else .error .invalidSliceIndex
  | _ => .error .invalidSliceIndex

/-- The items at `start`, `start + step`, … below `stop`. -/
def sliced (items : List Value) (start stop step : Nat) : List Value :=
  every step 0 ((items.take stop).drop start)
where
  /-- Takes an item, leaves out `step - 1`, and so on; `wait` items are left out first. -/
  every (step : Nat) : Nat → List Value → List Value
    | _, [] => []
    | 0, v :: rest => v :: every step (step - 1) rest
    | wait + 1, _ :: rest => every step wait rest

/-- The strings of a list of values; the first value that is no string is a fault. -/
def strings : Nat → List Value → Except NativeFault (List String)
  | _, [] => .ok []
  | i, .string s :: rest => do return s :: (← strings (i + 1) rest)
  | i, v :: _ => .error (.itemNotText i v.typeName)

/-- What a method does to its array: the changed items, if it changes them, and its answer. -/
inductive Effect where
  | keep (v : Value)
  | change (f : Array Value → Array Value) (v : Value)
  | slice (items : List Value)

/-- The effect of a method on an array with some items. -/
def effect (items : Array Value) : ArrayMethod → List Value → Except NativeFault Effect
  | get, [index] => do
    match ← position items.size index with
    | some i => return .keep (items[i]?.getD .nil)
    | none => throw .indexOutOfRange
  | set, [index, v] => do
    match ← position items.size index with
    | some i => return .change (·.setIfInBounds i v) .nil
    | none => throw .assignmentOutOfRange
  | append, [v] => .ok (.change (·.push v) .nil)
  | appendleft, [v] => .ok (.change (#[v] ++ ·) .nil)
  | pop, _ =>
    match items.back? with
    | some v => .ok (.change Array.pop v)
    | none => .error .emptyPop
  | popleft, _ =>
    match items[0]? with
    | some v => .ok (.change (fun a => a.extract 1 a.size) v)
    | none => .error .emptyPop
  | clear, _ => .ok (.change (fun _ => #[]) .nil)
  | reverse, _ => .ok (.change Array.reverse .nil)
  | join, [.string separator] => do
    return .keep (.string (separator.intercalate (← strings 0 items.toList)))
  | join, [v] => .error (.separatorNotText v.typeName)
  | slice, [start, stop, step] => do
    let start := (← bound start).getD 0
    let stop := (← bound stop).getD items.size
    let step := (← bound step).getD 1
    if step = 0 then throw .invalidStep
    return .slice (sliced items.toList start stop step)
  | _, _ => .ok (.keep .nil)

/-- Calls a method of an array with as many arguments as it takes. -/
def run (h : Heap) (id : ArrayId) (m : ArrayMethod) (arguments : List Value) :
    Except NativeFault (Value × Heap) := do
  match ← effect (h.items id) m arguments with
  | .keep v => return (v, h)
  | .change f v => return (v, h.modifyArray id f)
  | .slice items =>
    let (new, h) := h.newArray items.toArray
    return (.array new, h)

end LoxLang.ArrayMethod
