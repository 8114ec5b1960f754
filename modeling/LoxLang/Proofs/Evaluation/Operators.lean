import LoxLang.Evaluator
import LoxLang.Proofs.Value.Related

/-!
Operators on related values. An operator looks into no closure, so it has one result on values that are
related, which refers to no code of the program, or one fault. Equality alone looks into the heap.
-/

namespace LoxLang

namespace Exec

/-- Both computations, with faults at `p` and `q`, yield one value without code, or have one fault; they do
nothing else. -/
inductive SameResult (p q : Position) (x y : Exec Value) : Prop where
  | value (v : Value) (h : v.IsData) : x = pure v → y = pure v → SameResult p q x y
  | fault (fault : RuntimeFault) : x = fail p fault → y = fail q fault → SameResult p q x y

namespace SameResult

variable {p q : Position}

theorem pure {v : Value} (h : v.IsData) : SameResult p q (Pure.pure v) (Pure.pure v) :=
  .value v h rfl rfl

theorem fail (fault : RuntimeFault) : SameResult p q (Exec.fail p fault) (Exec.fail q fault) :=
  .fault fault rfl rfl

end SameResult

variable {C : Closure → Closure → Prop} {P : Position → Position → Prop} {p q : Position} {v v' w w' : Value}

theorem unary_related (op : UnaryOp) (hv : v.Related C P v') :
    SameResult p q (unary op p v) (unary op q v') := by
  cases op with
  | not => exact .value (.bool !v'.isTruthy) trivial (by rw [← hv.isTruthy]; rfl) rfl
  | negate =>
    cases hv with
    | function => exact .fail _
    | arrayMethod => exact .fail _
    | data =>
      cases v with
      | number n => exact .pure trivial
      | _ => exact .fail _

theorem order_related (c : Comparison) (hv : v.Related C P v') (hw : w.Related C P w') :
    SameResult p q (binary (.order c) p v w) (binary (.order c) q v' w') := by
  cases hv with
  | function => exact .fail _
  | arrayMethod => exact .fail _
  | data =>
    cases v with
    | number a =>
      cases hw with
      | function => exact .fail _
      | arrayMethod => exact .fail _
      | data =>
        cases w with
        | number b => exact .pure trivial
        | _ => exact .fail _
    | _ => exact .fail _

theorem arithmetic_related (op : Arithmetic) (hv : v.Related C P v') (hw : w.Related C P w') :
    SameResult p q (binary (.arithmetic op) p v w) (binary (.arithmetic op) q v' w') := by
  cases hv with
  | function => cases op <;> exact .fail _
  | arrayMethod => cases op <;> exact .fail _
  | data =>
    cases v with
    | number a =>
      cases hw with
      | function => cases op <;> exact .fail _
      | arrayMethod => cases op <;> exact .fail _
      | data =>
        cases w with
        | number b => cases op <;> exact .pure trivial
        | _ => cases op <;> exact .fail _
    | string a =>
      cases hw with
      | function => cases op <;> exact .fail _
      | arrayMethod => cases op <;> exact .fail _
      | data =>
        cases w with
        | string b => cases op <;> first | exact .pure trivial | exact .fail _
        | _ => cases op <;> exact .fail _
    | _ => cases op <;> exact .fail _

end Exec

end LoxLang
