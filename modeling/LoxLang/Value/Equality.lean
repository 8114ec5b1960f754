import LoxLang.Heap.Basic

/-!
Equality of values. Numbers and strings are equal by content, everything in the heap by identity. Looking a
method up makes a new closure every time; two of them are equal if they are the same method of the same
receiver.
-/

namespace LoxLang

namespace Value

/-- Equality of the values that a scope can bind to `this`. -/
def sameObject : Option Value → Option Value → Bool
  | some (object a), some (object b) => a == b
  | _, _ => false

/-- Whether two closures come from one declaration and one scope, or bind one method to one receiver. -/
def sameClosure (h : Heap) (f g : Closure) : Bool :=
  f.declaration.id == g.declaration.id &&
    (f.frame == g.frame ||
      ((h.parent? f.frame).isSome && h.parent? f.frame == h.parent? g.frame &&
        sameObject (h.ownValue? f.frame thisName) (h.ownValue? g.frame thisName)))

/-- Equality of the language. Values of different kinds are never equal. -/
def equal (h : Heap) : Value → Value → Bool
  | nil, nil => true
  | bool a, bool b => a == b
  | number a, number b => a.equal b
  | string a, string b => a == b
  | native f, native g => f == g
  | function f, function g => sameClosure h f g
  | cls a, cls b => a == b
  | object a, object b => a == b
  | array a, array b => a == b
  | arrayMethod a m _, arrayMethod b k _ => a == b && m == k
  | _, _ => false

end Value

end LoxLang
