import LoxLang.Diagnostic
import LoxLang.Heap.Basic

/-!
What native functions take and give. They take values of one kind and refuse the others; they give a value,
or the items of a new array, or of an array of new arrays.
-/

namespace LoxLang.Native

/-- What a native function gives. -/
inductive Answer where
  | value (v : Value)
  | row (items : List Value)
  | table (rows : List (List Value))

/-- One more row as an array, behind the arrays of the rows in front of it. -/
def Answer.deliverRow (made : Array Value × Heap) (row : List Value) : Array Value × Heap :=
  let (id, h) := made.2.newArray row.toArray
  (made.1.push (.array id), h)

/-- The value of an answer; the arrays it asks for are made in the heap. -/
def Answer.deliver (h : Heap) : Answer → Value × Heap
  | value v => (v, h)
  | row items =>
    let (id, h) := h.newArray items.toArray
    (.array id, h)
  | table rows =>
    let (ids, h) := rows.foldl deliverRow (#[], h)
    let (id, h) := h.newArray ids
    (.array id, h)

def number (v : Value) : Except NativeFault Number :=
  match v with
  | .number n => .ok n
  | v => .error (.expected "a number" v.typeName)

def string (v : Value) : Except NativeFault String :=
  match v with
  | .string s => .ok s
  | v => .error (.expected "a string" v.typeName)

/-- The items of an array. -/
def items (h : Heap) (v : Value) : Except NativeFault (List Value) :=
  match v with
  | .array id => .ok (h.items id).toList
  | v => .error (.expected "an array" v.typeName)

/-- The items of an array of numbers. -/
def numbers (h : Heap) (v : Value) : Except NativeFault (List Number) := do
  (← items h v).mapM number

end LoxLang.Native
