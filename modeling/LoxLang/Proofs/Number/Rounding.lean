import LoxLang.Number.Arithmetic
import Mathlib.Algebra.Order.Field.Power
import Mathlib.Algebra.Order.Field.Rat
import Mathlib.Data.Int.Log
import Mathlib.Data.Rat.Floor
import Mathlib.Tactic.Linarith
import Mathlib.Tactic.Positivity
import Mathlib.Tactic.Ring

/-!
Rounding to double precision numbers keeps order. The magnitude nearest to a quotient counts units in the last
place, from the first number of a binade on; so within a binade the order is that of quotients rounded to
natural numbers, and a count never goes beyond the first number of the next binade. From this it follows
that converting integers keeps their order too, although different integers can become one number.
-/

namespace LoxLang.Binary64

theorem twoTo_eq (n : Nat) : twoTo n = 2 ^ n := rfl

/-! ### Quotients as natural numbers -/

theorem roundQuotient_bounds (num den : Nat) :
    num / den ≤ roundQuotient num den ∧ roundQuotient num den ≤ num / den + 1 := by
  unfold roundQuotient
  dsimp only
  split_ifs <;> omega

@[simp]
theorem roundQuotient_one (n : Nat) : roundQuotient n 1 = n := by
  simp [roundQuotient, Nat.mod_one]

theorem roundQuotient_mono {num den num' den' : Nat} (hden : 0 < den) (hden' : 0 < den')
    (h : (num : ℚ) / den ≤ num' / den') : roundQuotient num den ≤ roundQuotient num' den' := by
  have hcross : num * den' ≤ num' * den := by
    rw [div_le_div_iff₀ (by positivity) (by positivity)] at h
    exact_mod_cast h
  have hfloor : num / den ≤ num' / den' := by
    rw [Nat.le_div_iff_mul_le hden']
    refine Nat.le_of_mul_le_mul_right ?_ hden
    calc num / den * den' * den = num / den * den * den' := by ring
      _ ≤ num * den' := Nat.mul_le_mul_right _ (Nat.div_mul_le_self num den)
      _ ≤ num' * den := hcross
  rcases Nat.lt_or_eq_of_le hfloor with hlt | heq
  · exact (roundQuotient_bounds num den).2.trans (hlt.trans_le (roundQuotient_bounds num' den').1)
  · -- With one floor, the remainders decide, and they are in the order of the quotients.
    have hrest : num % den * den' ≤ num' % den' * den := by
      have hnum := Nat.div_add_mod num den
      have hnum' := Nat.div_add_mod num' den'
      rw [← hnum, ← hnum', heq] at hcross
      nlinarith
    have hbelow : 2 * (num' % den') < den' → 2 * (num % den) < den := by
      intro hlt
      refine Nat.lt_of_mul_lt_mul_right (a := den') ?_
      calc 2 * (num % den) * den' ≤ 2 * (num' % den') * den := by nlinarith
        _ < den' * den := Nat.mul_lt_mul_of_pos_right hlt hden
        _ = den * den' := Nat.mul_comm _ _
    have habove : den < 2 * (num % den) → den' < 2 * (num' % den') := by
      intro hlt
      refine Nat.lt_of_mul_lt_mul_right (a := den) ?_
      calc den' * den = den * den' := Nat.mul_comm _ _
        _ < 2 * (num % den) * den' := Nat.mul_lt_mul_of_pos_right hlt hden'
        _ ≤ 2 * (num' % den') * den := by nlinarith
    unfold roundQuotient
    dsimp only
    split_ifs <;> omega

/-! ### Units in the last place -/

/-- A power of two as a quotient of natural numbers. -/
theorem two_zpow_eq (k : ℤ) : (2 : ℚ) ^ k = (twoTo k.toNat : ℚ) / (twoTo (-k).toNat : ℚ) := by
  simp only [twoTo_eq, Nat.cast_pow, Nat.cast_ofNat]
  rcases le_total 0 k with hk | hk
  · rw [Int.toNat_of_nonpos (Int.neg_nonpos_of_nonneg hk), pow_zero, div_one, ← zpow_natCast,
      Int.toNat_of_nonneg hk]
  · rw [Int.toNat_of_nonpos hk, pow_zero, one_div, ← zpow_natCast,
      Int.toNat_of_nonneg (Int.neg_nonneg_of_nonpos hk), zpow_neg, inv_inv]

theorem twoTo_pos (n : Nat) : 0 < twoTo n := Nat.pow_pos (by decide)

/-- A quotient counted in units of `2 ^ q`. -/
theorem scaled_div (num den : Nat) (q : ℤ) :
    ((num * twoTo (-q).toNat : Nat) : ℚ) / (den * twoTo q.toNat : Nat) = num / den / 2 ^ q := by
  rw [two_zpow_eq, Nat.cast_mul, Nat.cast_mul, div_div_eq_mul_div, div_mul_eq_mul_div, div_div]

theorem floorLog2_eq {num den : Nat} (hnum : 0 < num) (hden : 0 < den) :
    floorLog2 num den = Int.log 2 ((num : ℚ) / den) := by
  have hpos : (0 : ℚ) < (num : ℚ) / den := by positivity
  have htest : ∀ k : ℤ, den * twoTo k.toNat ≤ num * twoTo (-k).toNat ↔ (2 : ℚ) ^ k ≤ num / den := by
    intro k
    have h₁ : (0 : ℚ) < (twoTo (-k).toNat : ℚ) := by exact_mod_cast twoTo_pos _
    have h₂ : (0 : ℚ) < (den : ℚ) := by exact_mod_cast hden
    rw [two_zpow_eq, div_le_div_iff₀ h₁ h₂, mul_comm (twoTo _ : ℚ)]
    exact_mod_cast Iff.rfl
  have hlog : ∀ k : ℤ, (2 : ℚ) ^ k ≤ (num : ℚ) / den ↔ k ≤ Int.log 2 ((num : ℚ) / den) := fun k => by
    exact_mod_cast Int.zpow_le_iff_le_log (b := 2) (by decide) hpos
  -- Each of the two logarithms is known up to one, and so the difference up to two.
  have hnum₁ : (2 : ℚ) ^ (num.log2 : ℤ) ≤ num := by exact_mod_cast Nat.log2_self_le hnum.ne'
  have hnum₂ : (num : ℚ) < 2 ^ (num.log2 + 1 : ℤ) := by exact_mod_cast Nat.lt_log2_self
  have hden₁ : (2 : ℚ) ^ (den.log2 : ℤ) ≤ den := by exact_mod_cast Nat.log2_self_le hden.ne'
  have hden₂ : (den : ℚ) < 2 ^ (den.log2 + 1 : ℤ) := by exact_mod_cast Nat.lt_log2_self
  have hlower : (num.log2 : ℤ) - den.log2 - 1 ≤ Int.log 2 ((num : ℚ) / den) := by
    rw [← hlog, show (num.log2 : ℤ) - den.log2 - 1 = num.log2 - (den.log2 + 1) by ring,
      zpow_sub₀ (by norm_num)]
    exact div_le_div₀ (by positivity) hnum₁ (by positivity) hden₂.le
  have hupper : Int.log 2 ((num : ℚ) / den) < (num.log2 : ℤ) - den.log2 + 1 := by
    rw [← Int.not_le, ← hlog, not_le, show (num.log2 : ℤ) - den.log2 + 1 = num.log2 + 1 - den.log2 by ring,
      zpow_sub₀ (by norm_num)]
    exact div_lt_div₀ hnum₂ hden₁ (by positivity) (by positivity)
  unfold floorLog2
  simp only [htest, hlog]
  split_ifs <;> omega

/-- The exponent of the unit in the last place of the number nearest to `num / den`. -/
def lastPlace (num den : Nat) : Int :=
  max (floorLog2 num den - 52) (-1074)

/-- The quotient `num / den` in units in the last place, rounded. -/
def unitCount (num den : Nat) : Nat :=
  roundQuotient (num * twoTo (-lastPlace num den).toNat) (den * twoTo (lastPlace num den).toNat)

theorem nearestMagnitude_eq {num : Nat} (hnum : 0 < num) (den : Nat) :
    nearestMagnitude num den =
      min ((lastPlace num den + 1074).toNat * 2 ^ 52 + unitCount num den) infiniteMagnitude :=
  if_neg hnum.ne'

section

variable {num den : Nat} (hnum : 0 < num) (hden : 0 < den)
include hnum hden

theorem unitCount_le : unitCount num den ≤ 2 ^ 53 := by
  have hlog : (num : ℚ) / den < 2 ^ (floorLog2 num den + 1) := by
    rw [floorLog2_eq hnum hden]
    exact_mod_cast Int.lt_zpow_succ_log_self (b := 2) (by decide) ((num : ℚ) / den)
  have hplace : floorLog2 num den + 1 ≤ lastPlace num den + 53 := by
    unfold lastPlace
    omega
  rw [← roundQuotient_one (2 ^ 53)]
  refine roundQuotient_mono (Nat.mul_pos hden (twoTo_pos _)) Nat.one_pos ?_
  rw [scaled_div, div_le_iff₀ (by positivity)]
  calc (num : ℚ) / den ≤ 2 ^ (floorLog2 num den + 1) := hlog.le
    _ ≤ 2 ^ (lastPlace num den + 53) := zpow_le_zpow_right₀ (by norm_num) hplace
    _ = ((2 ^ 53 : Nat) : ℚ) / (1 : Nat) * 2 ^ lastPlace num den := by
      rw [zpow_add₀ (by norm_num), mul_comm]
      norm_num

theorem le_unitCount (hplace : -1074 < lastPlace num den) : 2 ^ 52 ≤ unitCount num den := by
  have hlog : (2 : ℚ) ^ floorLog2 num den ≤ num / den := by
    rw [floorLog2_eq hnum hden]
    exact_mod_cast Int.zpow_log_le_self (b := 2) (by decide) (by positivity : (0 : ℚ) < (num : ℚ) / den)
  have hnormal : lastPlace num den + 52 = floorLog2 num den := by
    unfold lastPlace at *
    omega
  rw [← roundQuotient_one (2 ^ 52)]
  refine roundQuotient_mono Nat.one_pos (Nat.mul_pos hden (twoTo_pos _)) ?_
  rw [scaled_div, le_div_iff₀ (by positivity)]
  calc ((2 ^ 52 : Nat) : ℚ) / (1 : Nat) * 2 ^ lastPlace num den = 2 ^ (lastPlace num den + 52) := by
        rw [zpow_add₀ (by norm_num), mul_comm]
        norm_num
    _ ≤ num / den := hnormal ▸ hlog

end

/-! ### Magnitudes -/

/-- Rounding to a double precision number keeps the order of quotients. -/
theorem nearestMagnitude_mono {num den num' den' : Nat} (hden : 0 < den) (hden' : 0 < den')
    (h : (num : ℚ) / den ≤ num' / den') : nearestMagnitude num den ≤ nearestMagnitude num' den' := by
  rcases Nat.eq_zero_or_pos num with rfl | hnum
  · exact Nat.zero_le _
  have hnum' : 0 < num' := by
    rw [Nat.pos_iff_ne_zero]
    rintro rfl
    rw [Nat.cast_zero, zero_div] at h
    exact absurd h (not_le.mpr (by positivity))
  have hplace : lastPlace num den ≤ lastPlace num' den' := by
    have hlog := Int.log_mono_right (b := 2) (by positivity) h
    unfold lastPlace
    rw [floorLog2_eq hnum hden, floorLog2_eq hnum' hden']
    omega
  rw [nearestMagnitude_eq hnum, nearestMagnitude_eq hnum']
  refine min_le_min_right _ ?_
  rcases Int.lt_or_eq_of_le hplace with hlt | heq
  · -- The lower binade ends where the next one begins.
    have hlow : -1074 ≤ lastPlace num den := le_max_right _ _
    have hcount := unitCount_le hnum hden
    have hcount' := le_unitCount hnum' hden' (by omega)
    omega
  · have hcount : unitCount num den ≤ unitCount num' den' := by
      unfold unitCount
      rw [heq]
      refine roundQuotient_mono (Nat.mul_pos hden (twoTo_pos _)) (Nat.mul_pos hden' (twoTo_pos _)) ?_
      rw [scaled_div, scaled_div]
      exact div_le_div_of_nonneg_right h (by positivity)
    omega

theorem nearestMagnitude_le (num den : Nat) : nearestMagnitude num den ≤ infiniteMagnitude := by
  unfold nearestMagnitude
  split_ifs
  · exact Nat.zero_le _
  · exact Nat.min_le_right _ _

theorem nearestMagnitude_nat_mono {a b : Nat} (h : a ≤ b) : nearestMagnitude a 1 ≤ nearestMagnitude b 1 :=
  nearestMagnitude_mono Nat.one_pos Nat.one_pos (div_le_div_of_nonneg_right (by exact_mod_cast h) (by positivity))

theorem nearestMagnitude_nat_pos {n : Nat} (h : 0 < n) : 0 < nearestMagnitude n 1 :=
  calc 0 < nearestMagnitude 1 1 := by decide +kernel
    _ ≤ nearestMagnitude n 1 := nearestMagnitude_nat_mono h

/-! ### Exact integers -/

theorem lastPlace_nat {n : Nat} (h : 0 < n) : lastPlace n 1 = (n.log2 : ℤ) - 52 := by
  have hlog : floorLog2 n 1 = n.log2 := by
    rw [floorLog2_eq h Nat.one_pos, Nat.cast_one, div_one, Int.log_natCast, Nat.log2_eq_log_two]
  unfold lastPlace
  omega

/-- An integer of at most 53 bits is a whole number of units in the last place. -/
theorem unitCount_nat {n : Nat} (h : 0 < n) (hsmall : n < 2 ^ 53) :
    unitCount n 1 = n * 2 ^ (52 - n.log2) ∧ unitCount n 1 < 2 ^ 53 := by
  have hlog : n.log2 ≤ 52 := Nat.le_of_lt_succ ((Nat.log2_lt h.ne').mpr hsmall)
  have hcount : unitCount n 1 = n * 2 ^ (52 - n.log2) := by
    unfold unitCount
    rw [lastPlace_nat h, show (-((n.log2 : ℤ) - 52)).toNat = 52 - n.log2 by omega,
      show ((n.log2 : ℤ) - 52).toNat = 0 by omega]
    exact roundQuotient_one _
  refine ⟨hcount, hcount ▸ ?_⟩
  calc n * 2 ^ (52 - n.log2) < 2 ^ (n.log2 + 1) * 2 ^ (52 - n.log2) :=
        Nat.mul_lt_mul_of_pos_right Nat.lt_log2_self (Nat.pow_pos (by decide))
    _ = 2 ^ 53 := by
      rw [← Nat.pow_add]
      congr 1
      omega

/-- Between two powers of two, the greater integer has more units. -/
theorem unitCount_nat_lt {a b : Nat} (ha : 0 < a) (h : a < b) (hb : b ≤ 2 ^ 53) (hlog : a.log2 = b.log2) :
    unitCount a 1 < unitCount b 1 := by
  have hsmall : b < 2 ^ 53 := by
    refine Nat.lt_of_le_of_ne hb fun hlarge => ?_
    have := (Nat.log2_lt ha.ne').mpr (h.trans_eq hlarge)
    rw [hlog, hlarge, Nat.log2_two_pow] at this
    exact absurd this (lt_irrefl _)
  rw [(unitCount_nat ha (h.trans hsmall)).1, (unitCount_nat (ha.trans h) hsmall).1, hlog]
  exact Nat.mul_lt_mul_of_pos_right h (Nat.pow_pos (by decide))

/-- Rounding tells integers of at most 53 bits apart. -/
theorem nearestMagnitude_nat_lt {a b : Nat} (h : a < b) (hb : b ≤ 2 ^ 53) :
    nearestMagnitude a 1 < nearestMagnitude b 1 := by
  rcases Nat.eq_zero_or_pos a with rfl | ha
  · exact nearestMagnitude_nat_pos h
  have hb' : 0 < b := ha.trans h
  have hplace := lastPlace_nat ha
  have hplace' := lastPlace_nat hb'
  have hlogs : a.log2 ≤ b.log2 := by
    rw [Nat.log2_eq_log_two, Nat.log2_eq_log_two]
    exact Nat.log_mono_right h.le
  have hless : (lastPlace a 1 + 1074).toNat * 2 ^ 52 + unitCount a 1 <
      (lastPlace b 1 + 1074).toNat * 2 ^ 52 + unitCount b 1 := by
    rcases Nat.lt_or_eq_of_le hlogs with hlt | heq
    · have hcount := (unitCount_nat ha (h.trans_le hb)).2
      have hcount' := le_unitCount hb' Nat.one_pos (by omega)
      omega
    · have hcount := unitCount_nat_lt ha h hb heq
      omega
  have hbound : (lastPlace b 1 + 1074).toNat * 2 ^ 52 + unitCount b 1 < infiniteMagnitude := by
    have hlog : b.log2 ≤ 53 := Nat.le_of_lt_succ ((Nat.log2_lt hb'.ne').mpr (by omega))
    have hcount := unitCount_le hb' Nat.one_pos
    calc (lastPlace b 1 + 1074).toNat * 2 ^ 52 + unitCount b 1 ≤ 1075 * 2 ^ 52 + 2 ^ 53 := by omega
      _ < infiniteMagnitude := by decide
  rw [nearestMagnitude_eq ha, nearestMagnitude_eq hb']
  exact (min_le_left _ _).trans_lt (lt_min hless (hless.trans hbound))

/-! ### Signs -/

theorem magnitude_ofMagnitude {negative : Bool} {m : Nat} (h : m ≤ infiniteMagnitude) :
    (ofMagnitude negative m).magnitude = m := by
  unfold magnitude ofMagnitude infiniteMagnitude at *
  simp only [UInt64.toNat_ofNat', twoTo_eq]
  split_ifs <;> omega

theorem isNegative_ofMagnitude {negative : Bool} {m : Nat} (h : m ≤ infiniteMagnitude) :
    (ofMagnitude negative m).isNegative = negative := by
  unfold isNegative ofMagnitude infiniteMagnitude at *
  simp only [UInt64.toNat_ofNat', twoTo_eq]
  cases negative <;> simp <;> omega

/-! ### Integers as double precision numbers -/

theorem magnitude_ofInt (n : Int) : (ofInt n).magnitude = nearestMagnitude n.natAbs 1 :=
  magnitude_ofMagnitude (nearestMagnitude_le _ _)

theorem isNegative_ofInt (n : Int) : (ofInt n).isNegative = decide (n < 0) :=
  isNegative_ofMagnitude (nearestMagnitude_le _ _)

theorem isNaN_ofInt (n : Int) : (ofInt n).isNaN = false := by
  unfold isNaN
  rw [magnitude_ofInt]
  exact decide_eq_false (Nat.not_lt.mpr (nearestMagnitude_le _ _))

theorem orderKey_ofInt (n : Int) :
    (ofInt n).orderKey = if n < 0 then -(nearestMagnitude n.natAbs 1 : Int) else nearestMagnitude n.natAbs 1 := by
  unfold orderKey
  rw [isNegative_ofInt, magnitude_ofInt]
  simp only [decide_eq_true_eq]

/-- Converting integers keeps their order. -/
theorem orderKey_ofInt_mono {a b : Int} (h : a ≤ b) : (ofInt a).orderKey ≤ (ofInt b).orderKey := by
  rw [orderKey_ofInt, orderKey_ofInt]
  split_ifs with ha hb hb
  · have := nearestMagnitude_nat_mono (show b.natAbs ≤ a.natAbs by omega)
    omega
  · omega
  · omega
  · have := nearestMagnitude_nat_mono (show a.natAbs ≤ b.natAbs by omega)
    omega

/-- Converted integers are ordered in the total order as by value: there is one zero, and no NaN. -/
theorem totalKey_ofInt (n : Int) :
    (ofInt n).totalKey = if n < 0 then (ofInt n).orderKey - 1 else (ofInt n).orderKey := by
  unfold totalKey
  rw [orderKey_ofInt, isNegative_ofInt, magnitude_ofInt]
  simp only [decide_eq_true_eq]
  split_ifs <;> rfl

theorem ofInt_eq_iff {a b : Int} : ofInt a = ofInt b ↔ (ofInt a).orderKey = (ofInt b).orderKey := by
  refine ⟨congrArg orderKey, fun h => ?_⟩
  have hpos : ∀ n : Int, n < 0 → 0 < nearestMagnitude n.natAbs 1 := fun n hn => nearestMagnitude_nat_pos (by omega)
  have hsign : decide (a < 0) = decide (b < 0) ∧ nearestMagnitude a.natAbs 1 = nearestMagnitude b.natAbs 1 := by
    rw [orderKey_ofInt, orderKey_ofInt] at h
    have ha := hpos a
    have hb := hpos b
    split_ifs at h <;> grind
  unfold ofInt
  rw [hsign.1, hsign.2]

theorem totalKey_ofInt_le_iff {a b : Int} :
    (ofInt a).totalKey ≤ (ofInt b).totalKey ↔ (ofInt a).orderKey ≤ (ofInt b).orderKey := by
  have hzero : ∀ n : Int, n < 0 ↔ (ofInt n).orderKey < 0 := by
    intro n
    rw [orderKey_ofInt]
    split_ifs with hn
    · have := nearestMagnitude_nat_pos (show 0 < n.natAbs by omega)
      omega
    · omega
  rw [totalKey_ofInt, totalKey_ofInt, if_congr (hzero a) rfl rfl, if_congr (hzero b) rfl rfl]
  split_ifs <;> omega

/-- Integers of at most 53 bits stay different. -/
theorem ofInt_injective {a b : Int} (ha : a.natAbs ≤ 2 ^ 53) (hb : b.natAbs ≤ 2 ^ 53)
    (h : ofInt a = ofInt b) : a = b := by
  have hsign : (a < 0 ↔ b < 0) := by
    simpa only [isNegative_ofInt, decide_eq_decide] using congrArg isNegative h
  have hmagnitude : nearestMagnitude a.natAbs 1 = nearestMagnitude b.natAbs 1 := by
    simpa only [magnitude_ofInt] using congrArg magnitude h
  have hnatAbs : a.natAbs = b.natAbs := by
    rcases Nat.lt_trichotomy a.natAbs b.natAbs with hlt | heq | hlt
    · exact absurd hmagnitude (nearestMagnitude_nat_lt hlt hb).ne
    · exact heq
    · exact absurd hmagnitude (nearestMagnitude_nat_lt hlt ha).ne'
  omega

end LoxLang.Binary64
