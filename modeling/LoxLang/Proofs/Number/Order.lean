import LoxLang.Evaluator
import LoxLang.Proofs.Number.Rounding

/-!
The order operators on numbers. Two integers are compared as they are, and every other pair as double precision
numbers. Both orders are total and converting keeps the order of integers, so the operators agree with each
other and nearly make one order of the two. They do so but for one gap: between two integers that are converted
to one double precision number, that number counts as equal to both, whichever of them is greater.
-/

namespace LoxLang

open Binary64 (ofInt orderKey)

/-- An order operator answers so on two numbers, in every state. -/
def Comparison.Answers (c : Comparison) (x y : Number) (answer : Bool) : Prop :=
  ∀ position m, (Exec.binary (.order c) position (.number x) (.number y)).run m = .ok (.bool answer) m

namespace Number

/-- Every number but a NaN. -/
def IsComparable : Number → Prop
  | int _ => True
  | float x => x.isNaN = false

/-- The first number is at most the second one in the order that this pair is compared in. -/
def AtMost : Number → Number → Prop
  | int a, int b => a.toInt ≤ b.toInt
  | x, y => x.toBinary64.orderKey ≤ y.toBinary64.orderKey

/-- A double precision number that is equal to two integers, of which the first one is greater. -/
def Glued (x y z : Number) : Prop :=
  ∃ a f c, x = int a ∧ y = float f ∧ z = int c ∧ c.toInt < a.toInt ∧
    (ofInt a.toInt).numericEq f ∧ (ofInt c.toInt).numericEq f

variable {x y z : Number}

theorem IsComparable.isNaN (hx : x.IsComparable) : x.toBinary64.isNaN = false := by
  cases x with
  | int a => exact Binary64.isNaN_ofInt _
  | float f => exact hx

theorem compare?_converted (hx : x.IsComparable) (hy : y.IsComparable) :
    x.toBinary64.compare? y.toBinary64 = some (compare x.toBinary64.orderKey y.toBinary64.orderKey) := by
  unfold Binary64.compare?
  rw [hx.isNaN, hy.isNaN]
  rfl

theorem compare?_eq (hx : x.IsComparable) (hy : y.IsComparable) :
    ∃ o, x.compare? y = some o ∧ (o ≠ .gt ↔ x.AtMost y) := by
  have hconverted := compare?_converted hx hy
  cases x with
  | int a =>
    cases y with
    | int b => exact ⟨_, rfl, compare_le_iff_le⟩
    | float g => exact ⟨_, hconverted, compare_le_iff_le⟩
  | float f => cases y <;> exact ⟨_, hconverted, compare_le_iff_le⟩

theorem compare?_swap (x y : Number) : y.compare? x = (x.compare? y).map Ordering.swap := by
  have hconverted : ∀ f g : Binary64, g.compare? f = (f.compare? g).map Ordering.swap := by
    intro f g
    unfold Binary64.compare?
    rw [Bool.or_comm]
    split
    · rfl
    · exact congrArg some (Std.OrientedCmp.eq_swap)
  cases x with
  | int a =>
    cases y with
    | int b => exact congrArg some Std.OrientedCmp.eq_swap
    | float g => exact hconverted _ _
  | float f => cases y <;> exact hconverted _ _

/-! ### One order from two -/

theorem AtMost.total (x y : Number) : x.AtMost y ∨ y.AtMost x := by
  cases x <;> cases y <;> exact le_total _ _

/-- Converting keeps the order. -/
theorem AtMost.converted (h : x.AtMost y) : x.toBinary64.orderKey ≤ y.toBinary64.orderKey := by
  cases x with
  | int a =>
    cases y with
    | int b => exact Binary64.orderKey_ofInt_mono h
    | float g => exact h
  | float f => cases y <;> exact h

theorem numericEq_iff {f g : Binary64} (hf : f.isNaN = false) (hg : g.isNaN = false) :
    f.numericEq g = true ↔ f.orderKey = g.orderKey := by
  unfold Binary64.numericEq Binary64.compare?
  rw [hf, hg]
  simp

theorem AtMost.trans_iff (hx : x.IsComparable) (hy : y.IsComparable) (hz : z.IsComparable) (hxy : x.AtMost y)
    (hyz : y.AtMost z) : x.AtMost z ↔ ¬Glued x y z := by
  constructor
  · rintro hxz ⟨a, f, c, rfl, rfl, rfl, hless, -, -⟩
    exact absurd hless (not_lt.mpr hxz)
  intro hgap
  have hconverted := hxy.converted.trans hyz.converted
  cases x with
  | float f => cases z <;> exact hconverted
  | int a =>
    cases z with
    | float h => exact hconverted
    | int c =>
      cases y with
      | int b => exact le_trans (α := Int) hxy hyz
      | float f =>
        -- If the first integer is greater, all three are converted to numbers of one value.
        refine not_lt.mp fun hless => hgap ⟨a, f, c, rfl, rfl, rfl, hless, ?_, ?_⟩
        · exact (numericEq_iff hx.isNaN hy).mpr
            (le_antisymm hxy (le_trans (α := Int) hyz (Binary64.orderKey_ofInt_mono hless.le)))
        · exact (numericEq_iff hz.isNaN hy).mpr
            (le_antisymm (le_trans (α := Int) (Binary64.orderKey_ofInt_mono hless.le) hxy) hyz)

/-- Integers of at most 53 bits are converted exactly, and leave no gap. -/
theorem Glued.large (hx : x.IsComparable) (hy : y.IsComparable) (hz : z.IsComparable) (h : Glued x y z) :
    ∃ n : Int64, (x = int n ∨ z = int n) ∧ 2 ^ 53 < n.toInt.natAbs := by
  obtain ⟨a, f, c, rfl, rfl, rfl, hless, ha, hc⟩ := h
  have ha' := (numericEq_iff hx.isNaN hy).mp ha
  have hc' := (numericEq_iff hz.isNaN hy).mp hc
  have hsame : ofInt a.toInt = ofInt c.toInt := Binary64.ofInt_eq_iff.mpr (ha'.trans hc'.symm)
  by_contra hnone
  have hsmall : ∀ n : Int64, int a = int n ∨ int c = int n → n.toInt.natAbs ≤ 2 ^ 53 :=
    fun n hn => not_lt.mp fun hlarge => hnone ⟨n, hn, hlarge⟩
  exact hless.ne' (Binary64.ofInt_injective (hsmall a (.inl rfl)) (hsmall c (.inr rfl)) hsame)

end Number

/-! ### The operators -/

namespace Comparison

variable {x y z : Number}

theorem answers_iff {c : Comparison} {answer : Bool} :
    c.Answers x y answer ↔ ((x.compare? y).map c.holds).getD false = answer := by
  constructor
  · intro h
    have hrun := h default default
    injection hrun with hvalue
    injection hvalue
  · rintro rfl position m
    rfl

theorem lessEqual_answers (hx : x.IsComparable) (hy : y.IsComparable) :
    lessEqual.Answers x y true ↔ x.AtMost y := by
  obtain ⟨o, ho, hle⟩ := Number.compare?_eq hx hy
  rw [answers_iff, ho, ← hle]
  cases o <;> decide

theorem less_answers (hx : x.IsComparable) (hy : y.IsComparable) :
    less.Answers x y true ↔ ¬lessEqual.Answers y x true := by
  obtain ⟨o, ho, -⟩ := Number.compare?_eq hx hy
  rw [answers_iff, answers_iff, Number.compare?_swap x y, ho]
  cases o <;> decide

theorem greater_answers {answer : Bool} : greater.Answers x y answer ↔ less.Answers y x answer := by
  rw [answers_iff, answers_iff, Number.compare?_swap x y]
  rcases x.compare? y with _ | _ | _ | _ <;> rfl

theorem greaterEqual_answers {answer : Bool} :
    greaterEqual.Answers x y answer ↔ lessEqual.Answers y x answer := by
  rw [answers_iff, answers_iff, Number.compare?_swap x y]
  rcases x.compare? y with _ | _ | _ | _ <;> rfl

end Comparison

open Comparison (lessEqual less greater greaterEqual)

/-- The order operators always answer on two numbers, `>` and `>=` as `<` and `<=` do the other way round. On
numbers that are no NaN, `<=` is total and `<` is its converse negated; and `<=` is transitive but for a
double precision number that is equal to two integers and stands between the greater and the smaller one. One of
those integers has more than 53 bits. -/
theorem numbers_ordered_up_to_rounding {x y z : Number} (hx : x.IsComparable) (hy : y.IsComparable)
    (hz : z.IsComparable) :
    (∀ c : Comparison, c.Answers x y true ∨ c.Answers x y false) ∧
    (lessEqual.Answers x y true ∨ lessEqual.Answers y x true) ∧
    (lessEqual.Answers x y true → lessEqual.Answers y z true →
      (lessEqual.Answers x z true ↔ ¬x.Glued y z)) ∧
    (less.Answers x y true ↔ ¬lessEqual.Answers y x true) ∧
    (∀ answer, greater.Answers x y answer ↔ less.Answers y x answer) ∧
    (∀ answer, greaterEqual.Answers x y answer ↔ lessEqual.Answers y x answer) ∧
    (x.Glued y z → ∃ n : Int64, (x = .int n ∨ z = .int n) ∧ 2 ^ 53 < n.toInt.natAbs) := by
  refine ⟨?_, ?_, ?_, Comparison.less_answers hx hy, fun _ => Comparison.greater_answers,
    fun _ => Comparison.greaterEqual_answers, Number.Glued.large hx hy hz⟩
  · intro c
    rw [Comparison.answers_iff, Comparison.answers_iff]
    exact Bool.eq_false_or_eq_true _
  · rw [Comparison.lessEqual_answers hx hy, Comparison.lessEqual_answers hy hx]
    exact Number.AtMost.total x y
  · rw [Comparison.lessEqual_answers hx hy, Comparison.lessEqual_answers hy hz,
      Comparison.lessEqual_answers hx hz]
    exact Number.AtMost.trans_iff hx hy hz

/-- At `2 ^ 53`, the double precision number lies between its successor and itself among the integers. -/
theorem numbers_ordered_up_to_rounding_gap :
    lessEqual.Answers (.int 9007199254740993) (.float (ofInt 9007199254740992)) true ∧
      lessEqual.Answers (.float (ofInt 9007199254740992)) (.int 9007199254740992) true ∧
      ¬lessEqual.Answers (.int 9007199254740993) (.int 9007199254740992) true := by
  have hfloat : Number.IsComparable (.float (ofInt 9007199254740992)) := Binary64.isNaN_ofInt _
  have hup : lessEqual.Answers (.int 9007199254740993) (.float (ofInt 9007199254740992)) true :=
    Comparison.answers_iff.mpr (by decide +kernel)
  have hdown : lessEqual.Answers (.float (ofInt 9007199254740992)) (.int 9007199254740992) true :=
    Comparison.answers_iff.mpr (by decide +kernel)
  have hglued : Number.Glued (.int 9007199254740993) (.float (ofInt 9007199254740992))
      (.int 9007199254740992) :=
    ⟨_, _, _, rfl, rfl, rfl, by decide, by decide +kernel, by decide +kernel⟩
  have htransitive := (numbers_ordered_up_to_rounding (x := .int 9007199254740993) trivial hfloat
    (z := .int 9007199254740992) trivial).2.2.1 hup hdown
  exact ⟨hup, hdown, fun h => htransitive.mp h hglued⟩

end LoxLang
