import LoxLang.Syntax.Basic

/-!
Values of a running program. Scopes, classes, instances and arrays live in the heap, and a value refers to
them by identity; so a value is a small piece of data, and what it refers to can change and be shared.
-/

namespace LoxLang

/-- A scope of the running program. -/
structure FrameId where
  index : Nat
deriving DecidableEq, Inhabited

structure ClassId where
  index : Nat
deriving DecidableEq, Inhabited

/-- An instance of a class. -/
structure ObjectId where
  index : Nat
deriving DecidableEq, Inhabited

structure ArrayId where
  index : Nat
deriving DecidableEq, Inhabited

/-- The functions that every program finds among its globals. -/
inductive Native where
  | abs | array | ceil | clock | divmod | floor | input | len | max | mean | median | min | mode | ord
  | reFindall | reMatch | reSearch | reSub | readText | std | str2num | stringArray
deriving DecidableEq, Inhabited

namespace Native

def all : List Native :=
  [ abs, array, ceil, clock, divmod, floor, input, len, max, mean, median, min, mode, ord,
    reFindall, reMatch, reSearch, reSub, readText, std, str2num, stringArray ]

def name : Native → String
  | abs => "abs"
  | array => "array"
  | ceil => "ceil"
  | clock => "clock"
  | divmod => "divmod"
  | floor => "floor"
  | input => "input"
  | len => "len"
  | max => "max"
  | mean => "mean"
  | median => "median"
  | min => "min"
  | mode => "mode"
  | ord => "ord"
  | reFindall => "re_findall"
  | reMatch => "re_match"
  | reSearch => "re_search"
  | reSub => "re_sub"
  | readText => "read_text"
  | std => "std"
  | str2num => "str2num"
  | stringArray => "string_array"

def arity : Native → Nat
  | clock => 0
  | divmod | max | min | reFindall | reMatch | reSearch => 2
  | reSub => 3
  | _ => 1

/-- The native function with a name. -/
def ofName? (name : String) : Option Native :=
  all.find? (·.name == name)

end Native

inductive ArrayMethod where
  | get | set | append | appendleft | pop | popleft | clear | reverse | join | slice
deriving DecidableEq, Inhabited

namespace ArrayMethod

def all : List ArrayMethod :=
  [get, set, append, appendleft, pop, popleft, clear, reverse, join, slice]

def name : ArrayMethod → String
  | get => "get"
  | set => "set"
  | append => "append"
  | appendleft => "appendleft"
  | pop => "pop"
  | popleft => "popleft"
  | clear => "clear"
  | reverse => "reverse"
  | join => "join"
  | slice => "slice"

def arity : ArrayMethod → Nat
  | pop | popleft | clear | reverse => 0
  | get | append | appendleft | join => 1
  | set => 2
  | slice => 3

/-- The method with a name. -/
def ofName? (name : String) : Option ArrayMethod :=
  all.find? (·.name == name)

end ArrayMethod

/-- A function: its declaration, and the scope that its body sees around its own. -/
structure Closure where
  declaration : FunctionDecl
  frame : FrameId
  /-- Whether it is the method that sets up new instances, which always yields its receiver. -/
  isInitializer : Bool
deriving Inhabited

inductive Value where
  | nil
  | bool (b : Bool)
  | number (n : Number)
  | string (s : String)
  | native (f : Native)
  | function (f : Closure)
  | cls (id : ClassId)
  | object (id : ObjectId)
  | array (id : ArrayId)
  /-- A method of an array; its faults are reported where it was looked up. -/
  | arrayMethod (id : ArrayId) (method : ArrayMethod) (position : Position)
deriving Inhabited

namespace Value

def int (z : Int) : Value := number (.int (Int64.ofInt z))
def float (x : Binary64) : Value := number (.float x)

/-- All values but nil and false count as true. -/
def isTruthy : Value → Bool
  | nil => false
  | bool b => b
  | _ => true

/-- The name of the type of a value in messages. -/
def typeName : Value → String
  | nil => "nil"
  | bool _ => "bool"
  | number (.int _) => "int"
  | number (.float _) => "float"
  | string _ => "string"
  | native _ | function _ | arrayMethod .. => "function"
  | cls _ => "class"
  | object _ => "instance"
  | array _ => "array"

def ofConstant : Constant → Value
  | .nil => nil
  | .bool b => bool b
  | .number n => number n
  | .string s => string s

end Value

end LoxLang
