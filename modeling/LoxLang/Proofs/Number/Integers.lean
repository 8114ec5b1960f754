import LoxLang.Evaluator
import Mathlib.Algebra.Order.Ring.Int
import Mathlib.Data.Int.Basic

/-!
Arithmetic on integers. The operations on two integers are told by what singles their results out among the
mathematical integers. A result that fits in 64 bits is given as an integer, but for two gaps: powers with an
exponent of more than 32 bits, and the remainder of the least integer by minus one.
-/

namespace LoxLang

/-! ### Results -/

/-- The result of an operation on mathematical integers. The floor quotient leaves a remainder that lies
between zero and the divisor; a remainder is smaller than the divisor and has the sign of the dividend. -/
def Arithmetic.Exact : Arithmetic → Int → Int → Int → Prop
  | .add, a, b, z => z = a + b
  | .sub, a, b, z => z = a - b
  | .mul, a, b, z => z = a * b
  | .div, _, _, _ => False
  | .floorDiv, a, b, z => ∃ r, a = b * z + r ∧ (0 ≤ r ∧ r < b ∨ b < r ∧ r ≤ 0)
  | .rem, a, b, z => (∃ q, a = b * q + z) ∧ z.natAbs < b.natAbs ∧ 0 ≤ a * z
  | .pow, a, b, z => 0 ≤ b ∧ z = a ^ b.toNat

/-- The operands at which an operation gives a double precision number whatever its exact result is. -/
def Arithmetic.Gap (op : Arithmetic) (a b : Int) : Prop :=
  op = .pow ∧ 2 ^ 32 ≤ b ∨ op = .rem ∧ a = -2 ^ 63 ∧ b = -1

/-- An integer of 64 bits. -/
def Fits (z : Int) : Prop :=
  -2 ^ 63 ≤ z ∧ z < 2 ^ 63

theorem fits_toInt (n : Int64) : Fits n.toInt :=
  ⟨n.le_toInt, n.toInt_lt⟩

theorem bmod_of_fits {z : Int} (hz : Fits z) : z.bmod (2 ^ 64) = z := by
  obtain ⟨hlow, hhigh⟩ := hz
  exact Int.bmod_eq_of_le (by omega) (by omega)

namespace Number

theorem ofInt?_of_fits {z : Int} (hz : Fits z) : ofInt? z = some (.int (Int64.ofInt z)) :=
  if_pos hz

theorem ofInt?_eq_none {z : Int} (hz : ¬Fits z) : ofInt? z = none :=
  if_neg hz

theorem toInt_ofInt {z : Int} (hz : Fits z) : (Int64.ofInt z).toInt = z :=
  Int64.toInt_ofInt_of_le hz.1 hz.2

end Number

/-! ### Powers -/

/-- The powers of 0, 1 and -1 depend on the exponent only by whether it is zero, and whether it is even. -/
theorem pow_of_natAbs_le_one {a : Int} (ha : a.natAbs ≤ 1) {k : Nat} (hk : k ≠ 0) :
    a ^ k = a ^ (2 - k % 2) := by
  obtain rfl | rfl | rfl : a = 0 ∨ a = 1 ∨ a = -1 := by omega
  · rw [zero_pow hk, zero_pow (by omega)]
  · rw [one_pow, one_pow]
  · rcases Nat.even_or_odd k with heven | hodd
    · rw [heven.neg_one_pow, Nat.even_iff.mp heven]
      rfl
    · rw [hodd.neg_one_pow, Nat.odd_iff.mp hodd]
      rfl

theorem not_fits_pow {a : Int} (ha : 2 ≤ a.natAbs) {k : Nat} (hk : 64 ≤ k) : ¬Fits (a ^ k) := by
  intro ⟨hlow, hhigh⟩
  have hlarge : 2 ^ 64 ≤ (a ^ k).natAbs := by
    rw [Int.natAbs_pow]
    calc 2 ^ 64 ≤ 2 ^ k := Nat.pow_le_pow_right (by decide) hk
      _ ≤ a.natAbs ^ k := Nat.pow_le_pow_left ha k
  omega

namespace Arithmetic

theorem intPow?_of_large {a b : Int} (hb : 2 ^ 32 ≤ b) : intPow? a b = none :=
  if_pos (.inr hb)

/-- Below the bound of the exponents, a power that fits is found. -/
theorem intPow?_bind {a b : Int} (hb : 0 ≤ b) (hbound : b < 2 ^ 32) :
    (intPow? a b).bind Number.ofInt? = Number.ofInt? (a ^ b.toNat) := by
  have hrange : ¬(b < 0 ∨ (twoTo 32 : Int) ≤ b) := by
    rintro (h | h)
    · exact absurd hb (Int.not_le.mpr h)
    · exact absurd hbound (Int.not_lt.mpr h)
  unfold intPow?
  rw [if_neg hrange]
  by_cases ha : a.natAbs ≤ 1
  · rw [if_pos ha, Option.bind_some]
    by_cases hzero : b = 0
    · rw [if_pos hzero, hzero, Int.toNat_zero, pow_zero]
    · rw [if_neg hzero, pow_of_natAbs_le_one ha (k := b.toNat) (by omega)]
      rfl
  · rw [if_neg ha]
    by_cases hlarge : 64 ≤ b
    · rw [if_pos hlarge, Number.ofInt?_eq_none (not_fits_pow (by omega) (by omega))]
      rfl
    · rw [if_neg hlarge]
      rfl

/-! ### Quotients and remainders -/

theorem tmod_nonpos {a : Int} (b : Int) (ha : a ≤ 0) : a.tmod b ≤ 0 := by
  have hneg := Int.tmod_nonneg b (Int.neg_nonneg_of_nonpos ha)
  rw [Int.neg_tmod] at hneg
  exact Int.nonpos_of_neg_nonneg hneg

theorem exact_rem (a : Int) {b : Int} (hb : b ≠ 0) : Exact .rem a b (a.tmod b) := by
  refine ⟨⟨a.tdiv b, (Int.mul_tdiv_add_tmod a b).symm⟩, ?_, ?_⟩
  · rw [Int.natAbs_tmod]
    exact Nat.mod_lt _ (Int.natAbs_pos.mpr hb)
  · rcases Int.le_total 0 a with ha | ha
    · exact mul_nonneg ha (Int.tmod_nonneg b ha)
    · exact mul_nonneg_of_nonpos_of_nonpos ha (tmod_nonpos b ha)

theorem exact_floorDiv (a : Int) {b : Int} (hb : b ≠ 0) : Exact .floorDiv a b (floorQuotient a b) := by
  have hsum := Int.mul_tdiv_add_tmod a b
  have hlt := (exact_rem a hb).2.1
  have hsign : (0 ≤ a → 0 ≤ a.tmod b) ∧ (a ≤ 0 → a.tmod b ≤ 0) :=
    ⟨fun ha => Int.tmod_nonneg b ha, fun ha => tmod_nonpos b ha⟩
  unfold floorQuotient
  split
  case isTrue h =>
    have hdiffer : ¬(a < 0 ↔ b < 0) := fun hsame => h.2 (decide_eq_decide.mpr hsame)
    exact ⟨a.tmod b + b, by rw [mul_sub]; omega, by omega⟩
  case isFalse h =>
    have hagree : a.tmod b = 0 ∨ (a < 0 ↔ b < 0) :=
      or_iff_not_imp_left.mpr fun hrest => by
        by_contra hdiffer
        exact h ⟨hrest, fun hsame => hdiffer (decide_eq_decide.mp hsame)⟩
    exact ⟨a.tmod b, hsum.symm, by omega⟩

/-- Only the quotient of the least integer by minus one, rounded towards zero, does not fit. -/
theorem fits_tdiv {a b : Int} (ha : Fits a) (hb : b ≠ 0) :
    Fits (a.tdiv b) ↔ ¬(a = -2 ^ 63 ∧ b = -1) := by
  unfold Fits at *
  by_cases hminus : b = -1
  · subst hminus
    rw [Int.tdiv_neg, Int.tdiv_one]
    omega
  · have hquotient : (a.tdiv b).natAbs = a.natAbs / b.natAbs := Int.natAbs_tdiv a b
    refine ⟨fun _ h => hminus h.2, fun _ => ?_⟩
    by_cases hone : b = 1
    · subst hone
      rwa [Int.tdiv_one]
    · have hhalf : a.natAbs / b.natAbs ≤ a.natAbs / 2 := Nat.div_le_div_left (by omega) (by decide)
      omega

/-! ### Operations -/

/-- An operation has at most one result. -/
theorem Exact.unique {op : Arithmetic} {a b z z' : Int} (h : op.Exact a b z) (h' : op.Exact a b z') :
    z' = z := by
  cases op with
  | add => exact h'.trans h.symm
  | sub => exact h'.trans h.symm
  | mul => exact h'.trans h.symm
  | div => cases h
  | floorDiv =>
    obtain ⟨r, hr, hbounds⟩ := h
    obtain ⟨r', hr', hbounds'⟩ := h'
    have hdvd : b ∣ r - r' := ⟨z' - z, by rw [mul_sub]; omega⟩
    have hsame := Int.eq_zero_of_dvd_of_natAbs_lt_natAbs hdvd (by omega)
    have hb : b ≠ 0 := by omega
    exact mul_left_cancel₀ hb (by omega)
  | rem =>
    obtain ⟨⟨q, hq⟩, hlt, hsign⟩ := h
    obtain ⟨⟨q', hq'⟩, hlt', hsign'⟩ := h'
    have hdvd : b ∣ z' - z := ⟨q - q', by rw [mul_sub]; omega⟩
    have hclose : (z' - z).natAbs < b.natAbs := by
      rcases Int.lt_trichotomy a 0 with ha | rfl | ha
      · have hz := nonpos_of_mul_nonneg_right hsign ha
        have hz' := nonpos_of_mul_nonneg_right hsign' ha
        omega
      · have hz := Int.eq_zero_of_dvd_of_natAbs_lt_natAbs (d := b) (n := z) ⟨-q, by rw [mul_neg]; omega⟩ hlt
        omega
      · have hz := nonneg_of_mul_nonneg_right hsign ha
        have hz' := nonneg_of_mul_nonneg_right hsign' ha
        omega
    have hsame := Int.eq_zero_of_dvd_of_natAbs_lt_natAbs hdvd hclose
    omega
  | pow => exact h'.2.trans h.2.symm

/-- Outside the gaps, what the operation finds is its exact result if that fits. -/
theorem onInts?_of_exact {op : Arithmetic} {a b z : Int} (ha : Fits a) (h : op.Exact a b z)
    (hgap : ¬op.Gap a b) : (op.onInts? a b).bind Number.ofInt? = Number.ofInt? z := by
  cases op with
  | add => rw [show z = a + b from h]; rfl
  | sub => rw [show z = a - b from h]; rfl
  | mul => rw [show z = a * b from h]; rfl
  | div => cases h
  | floorDiv =>
    have hb : b ≠ 0 := by
      obtain ⟨r, -, hbounds⟩ := h
      omega
    rw [(exact_floorDiv a hb).unique h, onInts?, if_neg hb]
    rfl
  | rem =>
    have hb : b ≠ 0 := by
      have := h.2.1
      omega
    have hfits := (fits_tdiv ha hb).mpr fun hslip => hgap (.inr ⟨rfl, hslip⟩)
    rw [(exact_rem a hb).unique h, onInts?, Number.ofInt?_of_fits hfits, if_neg (by simp [hb])]
    rfl
  | pow =>
    obtain ⟨hb, rfl⟩ := h
    have hbound : b < 2 ^ 32 := Int.not_le.mp fun hlarge => hgap (.inl ⟨rfl, hlarge⟩)
    exact intPow?_bind hb hbound

theorem onInts?_of_gap {op : Arithmetic} {a b : Int} (hgap : op.Gap a b) :
    (op.onInts? a b).bind Number.ofInt? = none := by
  rcases hgap with ⟨rfl, hlarge⟩ | ⟨rfl, rfl, rfl⟩
  · rw [onInts?, intPow?_of_large hlarge]
    rfl
  · have hnone : (Number.ofInt? (Int.tdiv (-2 ^ 63) (-1))).isNone = true := rfl
    rw [onInts?, if_pos (.inr hnone)]
    rfl

theorem exists_exact {op : Arithmetic} {a b : Int} (hdiv : op ≠ .div)
    (hb : op = .floorDiv ∨ op = .rem → b ≠ 0) (hpow : op = .pow → 0 ≤ b) : ∃ z, op.Exact a b z := by
  cases op with
  | add => exact ⟨a + b, rfl⟩
  | sub => exact ⟨a - b, rfl⟩
  | mul => exact ⟨a * b, rfl⟩
  | div => exact absurd rfl hdiv
  | floorDiv => exact ⟨_, exact_floorDiv a (hb (.inl rfl))⟩
  | rem => exact ⟨_, exact_rem a (hb (.inr rfl))⟩
  | pow => exact ⟨_, hpow rfl, rfl⟩

/-- The number is an integer if it can be one and there is no gap, and else a double precision number. -/
theorem apply_of_exact {op : Arithmetic} {a b : Int64} {z : Int} (h : op.Exact a.toInt b.toInt z) :
    (Fits z ∧ ¬op.Gap a.toInt b.toInt → ∃ i, op.apply (.int a) (.int b) = .int i ∧ i.toInt = z) ∧
      (¬(Fits z ∧ ¬op.Gap a.toInt b.toInt) → ∃ x, op.apply (.int a) (.int b) = .float x) := by
  have hfound : ¬op.Gap a.toInt b.toInt →
      (op.onInts? a.toInt b.toInt).bind Number.ofInt? = Number.ofInt? z :=
    onInts?_of_exact (fits_toInt a) h
  constructor
  · rintro ⟨hfits, hgap⟩
    refine ⟨Int64.ofInt z, ?_, Number.toInt_ofInt hfits⟩
    rw [apply, hfound hgap, Number.ofInt?_of_fits hfits]
    rfl
  · intro hnot
    have hnone : (op.onInts? a.toInt b.toInt).bind Number.ofInt? = none := by
      by_cases hgap : op.Gap a.toInt b.toInt
      · exact onInts?_of_gap hgap
      · rw [hfound hgap, Number.ofInt?_eq_none fun hfits => hnot ⟨hfits, hgap⟩]
    exact ⟨_, by rw [apply, hnone]; rfl⟩

end Arithmetic

/-- The negative of an integer is an integer if it fits, and else a double precision number. -/
theorem Number.neg_int (a : Int64) :
    (Fits (-a.toInt) → ∃ i, neg (.int a) = .int i ∧ i.toInt = -a.toInt) ∧
      (¬Fits (-a.toInt) → ∃ x, neg (.int a) = .float x) := by
  constructor
  · intro hfits
    exact ⟨Int64.ofInt (-a.toInt), by rw [neg, ofInt?_of_fits hfits]; rfl, toInt_ofInt hfits⟩
  · intro hnot
    exact ⟨_, by rw [neg, ofInt?_eq_none hnot]; rfl⟩

/-! ### The operators of the language -/

/-- Every operator on two integers but `/`, and unary minus, has one exact result, divisors of zero and
negative exponents apart. It gives the integer that is this result if that fits in 64 bits and the operands
are not in a gap of the operation, and else a double precision number. -/
theorem integers_exact_or_promoted (a b : Int64) (position : Position) (m : Machine) :
    (∀ op : Arithmetic, op ≠ .div → (op = .floorDiv ∨ op = .rem → b ≠ 0) → (op = .pow → 0 ≤ b.toInt) →
      ∃ z n, op.Exact a.toInt b.toInt z ∧ (∀ z', op.Exact a.toInt b.toInt z' → z' = z) ∧
        (Exec.binary (.arithmetic op) position (.number (.int a)) (.number (.int b))).run m =
          .ok (.number n) m ∧
        (Fits z ∧ ¬op.Gap a.toInt b.toInt → ∃ i, n = .int i ∧ i.toInt = z) ∧
        (¬(Fits z ∧ ¬op.Gap a.toInt b.toInt) → ∃ x, n = .float x)) ∧
    ∃ n, (Exec.unary .negate position (.number (.int a))).run m = .ok (.number n) m ∧
      (Fits (-a.toInt) → ∃ i, n = .int i ∧ i.toInt = -a.toInt) ∧
      (¬Fits (-a.toInt) → ∃ x, n = .float x) := by
  refine ⟨?_, Number.neg (.int a), rfl, Number.neg_int a⟩
  intro op hdiv hb hpow
  have hzero : op = .floorDiv ∨ op = .rem → b.toInt ≠ 0 := by
    intro hop hb'
    exact hb hop (Int64.toInt_inj.mp hb')
  obtain ⟨z, hz⟩ := Arithmetic.exists_exact (a := a.toInt) hdiv hzero hpow
  refine ⟨z, op.apply (.int a) (.int b), hz, fun z' => hz.unique, ?_, Arithmetic.apply_of_exact hz⟩
  cases op <;> rfl

/-- The remainder of the least integer by minus one fits, and is no integer all the same; there is a power
that is one. -/
theorem remainder_of_least_integer :
    (∃ z n, Arithmetic.rem.Exact (-2 ^ 63) (-1) z ∧ Fits z ∧
      (Exec.binary (.arithmetic .rem) default (.number (.int Int64.minValue)) (.number (.int (-1)))).run
        default = .ok (.number n) default ∧ ∃ x, n = .float x) ∧
    ∃ i : Int64, (Exec.binary (.arithmetic .pow) default (.number (.int (-7))) (.number (.int 3))).run
      default = .ok (.number (.int i)) default ∧ i.toInt = -343 := by
  constructor
  · obtain ⟨z, n, hz, -, hrun, -, hfloat⟩ := (integers_exact_or_promoted Int64.minValue (-1) default
      default).1 .rem (by decide) (fun _ => by decide) (fun h => by cases h)
    have hexact : Arithmetic.rem.Exact (-2 ^ 63) (-1) 0 := ⟨⟨2 ^ 63, by decide⟩, by decide, by decide⟩
    obtain rfl : z = 0 := hexact.unique hz
    exact ⟨0, n, hz, ⟨by decide, by decide⟩, hrun, hfloat fun h => h.2 (.inr ⟨rfl, by decide, by decide⟩)⟩
  · obtain ⟨z, n, hz, -, hrun, hint, -⟩ := (integers_exact_or_promoted (-7) 3 default default).1 .pow
      (by decide) (fun h => by rcases h with h | h <;> cases h) (fun _ => by decide)
    obtain rfl : z = -343 := hz.2
    obtain ⟨i, rfl, hi⟩ := hint ⟨⟨by decide, by decide⟩, fun h => by
      rcases h with ⟨-, h⟩ | ⟨h, -⟩
      · exact absurd h (by decide)
      · cases h⟩
    exact ⟨i, hrun, hi⟩

end LoxLang
