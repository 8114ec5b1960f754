import Mathlib.Data.List.Forall2
import LoxLang.Native.Call
import LoxLang.Proofs.Outcome
import LoxLang.Value.ArrayMethod
import LoxLang.Value.Text

/-!
Values that differ in the code they refer to. Two values are related if they are the same but for the
closures in them, which are as a given relation says, and but for the places where methods of arrays were
looked up. Native functions and methods of arrays look into neither, so they cannot tell related values
apart, and the only closures they give are those they were given.
-/

namespace LoxLang

namespace Value

/-- A value that refers to no code of the program. -/
def IsData : Value → Prop
  | function _ => False
  | arrayMethod .. => False
  | _ => True

/-- The values are the same but for closures and places, which are related. -/
inductive Related (C : Closure → Closure → Prop) (P : Position → Position → Prop) :
    Value → Value → Prop where
  | data {v : Value} (h : v.IsData) : Related C P v v
  | function {f g : Closure} (h : C f g) : Related C P (function f) (function g)
  | arrayMethod (id : ArrayId) (m : ArrayMethod) {p q : Position} (h : P p q) :
      Related C P (arrayMethod id m p) (arrayMethod id m q)

namespace Related

variable {C : Closure → Closure → Prop} {P : Position → Position → Prop} {v w : Value}

theorem isTruthy (h : Related C P v w) : v.isTruthy = w.isTruthy := by
  cases h <;> rfl

theorem imp {C' : Closure → Closure → Prop} {P' : Position → Position → Prop} (h : Related C P v w)
    (hC : ∀ f g, C f g → C' f g) (hP : ∀ p q, P p q → P' p q) : Related C' P' v w := by
  cases h with
  | data h => exact .data h
  | function h => exact .function (hC _ _ h)
  | arrayMethod id m h => exact .arrayMethod id m (hP _ _ h)

end Related

end Value

variable {C : Closure → Closure → Prop} {P : Position → Position → Prop}

/-- Two computations of a native function both have values that are related, or have one fault. -/
inductive Answering {α β : Type} (S : α → β → Prop) :
    Except NativeFault α → Except NativeFault β → Prop where
  | ok {a : α} {b : β} (h : S a b) : Answering S (.ok a) (.ok b)
  | error (fault : NativeFault) : Answering S (.error fault) (.error fault)

namespace Answering

variable {α β α' β' : Type} {S : α → β → Prop} {S' : α' → β' → Prop}

theorem bind {x : Except NativeFault α} {y : Except NativeFault β} {f : α → Except NativeFault α'}
    {g : β → Except NativeFault β'} (hx : Answering S x y)
    (hf : ∀ a b, S a b → Answering S' (f a) (g b)) : Answering S' (x >>= f) (y >>= g) := by
  cases hx with
  | ok h => exact hf _ _ h
  | error fault => exact .error fault

/-- The same computation on both sides hands one value on. -/
theorem bind_same {γ : Type} {x y : Except NativeFault γ} {f : γ → Except NativeFault α}
    {g : γ → Except NativeFault β} (hxy : x = y) (hf : ∀ a, Answering S (f a) (g a)) :
    Answering S (x >>= f) (y >>= g) := by
  subst hxy
  cases x with
  | ok a => exact hf a
  | error fault => exact .error fault

end Answering

/-! ### Arrays with related items -/

section Slots

variable {α β : Type} {R : α → β → Prop} {xs : Array α} {ys : Array β}

theorem getElem?_related (h : List.Forall₂ R xs.toList ys.toList) (i : Nat) :
    Option.Rel R xs[i]? ys[i]? := by
  rw [← Array.getElem?_toList, ← Array.getElem?_toList]
  generalize xs.toList = as at h
  generalize ys.toList = bs at h
  induction h generalizing i with
  | nil => exact .none
  | cons hab _ ih =>
    cases i with
    | zero => exact .some hab
    | succ i => exact ih i

theorem size_related (h : List.Forall₂ R xs.toList ys.toList) : xs.size = ys.size := by
  simpa using h.length_eq

theorem push_related (h : List.Forall₂ R xs.toList ys.toList) {x : α} {y : β} (hxy : R x y) :
    List.Forall₂ R (xs.push x).toList (ys.push y).toList := by
  rw [Array.toList_push, Array.toList_push]
  exact List.rel_append h (.cons hxy .nil)

theorem modify_related (h : List.Forall₂ R xs.toList ys.toList) (i : Nat) {f : α → α} {g : β → β}
    (hfg : ∀ x y, R x y → R (f x) (g y)) :
    List.Forall₂ R (xs.modify i f).toList (ys.modify i g).toList := by
  rw [Array.toList_modify, Array.toList_modify]
  generalize xs.toList = as at h
  generalize ys.toList = bs at h
  induction h generalizing i with
  | nil => simp
  | cons hab hrest ih =>
    cases i with
    | zero => exact .cons (hfg _ _ hab) hrest
    | succ i => exact .cons hab (ih i)

end Slots

namespace Heap

/-- The arrays of two heaps have related items. -/
def ArraysRelated (C : Closure → Closure → Prop) (P : Position → Position → Prop) (h h' : Heap) : Prop :=
  List.Forall₂ (fun a b => List.Forall₂ (Value.Related C P) (Array.toList a) (Array.toList b))
    h.arrays.toList h'.arrays.toList

theorem ArraysRelated.items {h h' : Heap} (harrays : ArraysRelated C P h h') (id : ArrayId) :
    List.Forall₂ (Value.Related C P) (h.items id).toList (h'.items id).toList := by
  have hitems := getElem?_related harrays id.index
  unfold Heap.items
  generalize h.arrays[id.index]? = a at hitems
  generalize h'.arrays[id.index]? = b at hitems
  cases hitems with
  | none => exact .nil
  | some h => exact h

theorem ArraysRelated.size {h h' : Heap} (harrays : ArraysRelated C P h h') :
    h.arrays.size = h'.arrays.size :=
  size_related harrays

/-- New arrays with related items get the same identity. -/
theorem ArraysRelated.newArray {h h' : Heap} (harrays : ArraysRelated C P h h') {a b : Array Value}
    (hab : List.Forall₂ (Value.Related C P) a.toList b.toList) :
    (h.newArray a).1 = (h'.newArray b).1 ∧
      ArraysRelated C P (h.newArray a).2 (h'.newArray b).2 :=
  ⟨by rw [Heap.newArray, Heap.newArray, harrays.size], push_related harrays hab⟩

theorem ArraysRelated.modifyArray {h h' : Heap} (harrays : ArraysRelated C P h h') (id : ArrayId)
    {f g : Array Value → Array Value}
    (hfg : ∀ a b : Array Value, List.Forall₂ (Value.Related C P) a.toList b.toList →
      List.Forall₂ (Value.Related C P) (f a).toList (g b).toList) :
    ArraysRelated C P (h.modifyArray id f) (h'.modifyArray id g) :=
  modify_related harrays id.index hfg

end Heap

end LoxLang
