import LoxLang.Proofs.Number.Order
import LoxLang.Value.Equality

/-!
Equality of values as a relation. In every heap it is an equivalence of the values that are equal to themselves,
which are all but the NaNs, and it never crosses from one kind of value to another.
-/

namespace LoxLang

namespace Binary64

variable {x y z : Binary64}

theorem numericEq_iff_orderKey : x.numericEq y = true ↔ x.isNaN = false ∧ y.isNaN = false ∧ x.orderKey = y.orderKey := by
  cases hx : x.isNaN <;> cases hy : y.isNaN <;> simp [numericEq, compare?, hx, hy]

end Binary64

namespace Number

variable {x y z : Number}

theorem equal_symm (h : x.equal y = true) : y.equal x = true := by
  cases x with
  | int a =>
    cases y with
    | int b => exact beq_iff_eq.mpr (beq_iff_eq.mp h).symm
    | float g => simp [equal] at h
  | float f =>
    cases y with
    | int b => simp [equal] at h
    | float g =>
      obtain ⟨hf, hg, hkey⟩ := Binary64.numericEq_iff_orderKey.mp h
      exact Binary64.numericEq_iff_orderKey.mpr ⟨hg, hf, hkey.symm⟩

theorem equal_trans (hxy : x.equal y = true) (hyz : y.equal z = true) : x.equal z = true := by
  cases x with
  | int a =>
    cases y with
    | int b =>
      cases z with
      | int c => simp_all [equal]
      | float _ => simp [equal] at hyz
    | float _ => simp [equal] at hxy
  | float f =>
    cases y with
    | int _ => simp [equal] at hxy
    | float g =>
      cases z with
      | int _ => simp [equal] at hyz
      | float k =>
        obtain ⟨hf, -, hfg⟩ := Binary64.numericEq_iff_orderKey.mp hxy
        obtain ⟨-, hk, hgk⟩ := Binary64.numericEq_iff_orderKey.mp hyz
        exact Binary64.numericEq_iff_orderKey.mpr ⟨hf, hk, hfg.trans hgk⟩

/-- Every number but a NaN is equal to itself. -/
theorem equal_self_iff : x.equal x = true ↔ x.IsComparable := by
  cases x with
  | int a => simp [equal, IsComparable]
  | float f => simp [equal, IsComparable, Binary64.numericEq_iff_orderKey]

end Number

namespace Value

/-- The kinds of values that equality tells apart: integers and floats are two of them. -/
inductive Kind where
  | nil | bool | int | float | string | native | function | cls | object | array | arrayMethod
deriving DecidableEq

def kind : Value → Kind
  | nil => .nil
  | bool _ => .bool
  | number (.int _) => .int
  | number (.float _) => .float
  | string _ => .string
  | native _ => .native
  | function _ => .function
  | cls _ => .cls
  | object _ => .object
  | array _ => .array
  | arrayMethod .. => .arrayMethod

/-- A float that is not a number. -/
def IsNaN : Value → Prop
  | number (.float x) => x.isNaN = true
  | _ => False

variable {h : Heap} {u v w : Value} {f g k : Closure}

/-! ### Closures -/

theorem sameObject_iff {a b : Option Value} :
    sameObject a b = true ↔ ∃ id, a = some (.object id) ∧ b = some (.object id) := by
  unfold sameObject
  split
  · rename_i c d
    constructor
    · intro hcd
      exact ⟨c, rfl, by rw [beq_iff_eq.mp hcd]⟩
    · rintro ⟨id, hc, hd⟩
      simp_all
  · rename_i hnot
    simp only [Bool.false_eq_true, false_iff, not_exists, not_and]
    rintro id rfl rfl
    exact hnot id id rfl rfl

/-- The scopes of two closures bind one receiver around one scope. -/
def BindAlike (h : Heap) (a b : FrameId) : Prop :=
  ∃ outer receiver, h.parent? a = some outer ∧ h.parent? b = some outer ∧
    h.ownValue? a thisName = some (.object receiver) ∧ h.ownValue? b thisName = some (.object receiver)

theorem sameClosure_iff : sameClosure h f g = true ↔
    f.declaration.id = g.declaration.id ∧ (f.frame = g.frame ∨ BindAlike h f.frame g.frame) := by
  unfold sameClosure BindAlike
  simp only [Bool.and_eq_true, Bool.or_eq_true, beq_iff_eq, sameObject_iff, Option.isSome_iff_exists]
  refine and_congr_right fun _ => or_congr_right ?_
  constructor
  · rintro ⟨⟨⟨outer, hf⟩, hparents⟩, receiver, hthis⟩
    exact ⟨outer, receiver, hf, hparents ▸ hf, hthis⟩
  · rintro ⟨outer, receiver, hf, hg, hthis⟩
    exact ⟨⟨⟨outer, hf⟩, hf.trans hg.symm⟩, receiver, hthis⟩

theorem BindAlike.symm {a b : FrameId} (hab : BindAlike h a b) : BindAlike h b a := by
  obtain ⟨outer, receiver, ha, hb, hthisA, hthisB⟩ := hab
  exact ⟨outer, receiver, hb, ha, hthisB, hthisA⟩

theorem BindAlike.trans {a b c : FrameId} (hab : BindAlike h a b) (hbc : BindAlike h b c) : BindAlike h a c := by
  obtain ⟨outer, receiver, ha, hb, hthisA, hthisB⟩ := hab
  obtain ⟨outer', receiver', hb', hc, hthisB', hthisC⟩ := hbc
  have houter : outer = outer' := Option.some.inj (hb.symm.trans hb')
  have hreceiver : receiver = receiver' := by
    have := hthisB.symm.trans hthisB'
    simpa using this
  subst houter hreceiver
  exact ⟨outer, receiver, ha, hc, hthisA, hthisC⟩

theorem sameClosure_symm (hfg : sameClosure h f g = true) : sameClosure h g f = true := by
  rw [sameClosure_iff] at hfg ⊢
  exact ⟨hfg.1.symm, hfg.2.imp Eq.symm BindAlike.symm⟩

theorem sameClosure_trans (hfg : sameClosure h f g = true) (hgk : sameClosure h g k = true) :
    sameClosure h f k = true := by
  rw [sameClosure_iff] at hfg hgk ⊢
  refine ⟨hfg.1.trans hgk.1, ?_⟩
  rcases hfg.2 with hframe | halike
  · rw [hframe]
    exact hgk.2
  · rcases hgk.2 with hframe | halike'
    · rw [← hframe]
      exact .inr halike
    · exact .inr (halike.trans halike')

/-! ### All values -/

/-- The pairs of equal values, by their kinds. -/
inductive Equals (h : Heap) : Value → Value → Prop
  | nil : Equals h nil nil
  | bool (b : Bool) : Equals h (bool b) (bool b)
  | number {x y : Number} (hxy : x.equal y = true) : Equals h (number x) (number y)
  | string (s : String) : Equals h (string s) (string s)
  | native (f : Native) : Equals h (native f) (native f)
  | function {f g : Closure} (hfg : sameClosure h f g = true) : Equals h (function f) (function g)
  | cls (id : ClassId) : Equals h (cls id) (cls id)
  | object (id : ObjectId) : Equals h (object id) (object id)
  | array (id : ArrayId) : Equals h (array id) (array id)
  | arrayMethod (id : ArrayId) (method : ArrayMethod) (p q : Position) :
    Equals h (arrayMethod id method p) (arrayMethod id method q)

theorem equal_iff : v.equal h w = true ↔ Equals h v w := by
  constructor
  · intro hvw
    unfold equal at hvw
    split at hvw
    case h_1 => exact .nil
    case h_3 => exact .number hvw
    case h_6 => exact .function hvw
    case h_10 =>
      obtain ⟨rfl, rfl⟩ := by simpa using hvw
      exact .arrayMethod ..
    case h_11 => cases hvw
    all_goals
      obtain rfl := beq_iff_eq.mp hvw
      constructor
  · intro hvw
    cases hvw with
    | number hxy => exact hxy
    | function hfg => exact hfg
    | _ => simp [equal]

theorem Equals.symm (hvw : Equals h v w) : Equals h w v := by
  cases hvw with
  | number hxy => exact .number (Number.equal_symm hxy)
  | function hfg => exact .function (sameClosure_symm hfg)
  | _ => constructor

theorem Equals.trans (hvw : Equals h v w) (hwu : Equals h w u) : Equals h v u := by
  cases hvw with
  | number hxy => cases hwu with | number hyz => exact .number (Number.equal_trans hxy hyz)
  | function hfg => cases hwu with | function hgk => exact .function (sameClosure_trans hfg hgk)
  | arrayMethod => cases hwu with | arrayMethod => constructor
  | _ => exact hwu

/-- Values of different kinds are never equal. -/
theorem Equals.kind_eq (hvw : Equals h v w) : v.kind = w.kind := by
  cases hvw with
  | @number x y hxy => cases x <;> cases y <;> first | rfl | cases hxy
  | _ => rfl

theorem equals_self_iff : Equals h v v ↔ ¬v.IsNaN := by
  cases v with
  | number x =>
    have hx : ¬(number x).IsNaN ↔ x.IsComparable := by
      cases x <;> simp [IsNaN, Number.IsComparable]
    rw [hx, ← Number.equal_self_iff]
    exact ⟨fun h => by cases h; assumption, .number⟩
  | function f => exact iff_of_true (.function (sameClosure_iff.mpr ⟨rfl, .inl rfl⟩)) id
  | _ => exact iff_of_true (by constructor) id

theorem equal_comm (h : Heap) (v w : Value) : v.equal h w = w.equal h v := by
  rw [Bool.eq_iff_iff, equal_iff, equal_iff]
  exact ⟨Equals.symm, Equals.symm⟩

theorem equal_trans (hvw : v.equal h w = true) (hwu : w.equal h u = true) : v.equal h u = true :=
  equal_iff.mpr ((equal_iff.mp hvw).trans (equal_iff.mp hwu))

end Value

end LoxLang
