import LoxLang.Decimal.Shortest
import LoxLang.Proofs.Number.Rounding

/-!
The interval of the reals that round to a double precision number. What lies in it is read as that number, in
whatever way it is written as digits and a power of ten.
-/

namespace LoxLang

namespace Binary64

/-! ### Rounding to a given count -/

/-- A quotient less than half a unit from a natural number is rounded to it, and so is one half a unit away if the
number is even. -/
theorem roundQuotient_eq {num den m : Nat} (hden : 0 < den) (hlow : (m : ℚ) - 1 / 2 ≤ num / den)
    (hhigh : (num : ℚ) / den ≤ m + 1 / 2)
    (htie : m % 2 = 1 → (m : ℚ) - 1 / 2 ≠ num / den ∧ (num : ℚ) / den ≠ m + 1 / 2) :
    roundQuotient num den = m := by
  have hpos : (0 : ℚ) < den := by exact_mod_cast hden
  have hlow' : 2 * (m * den) ≤ 2 * num + den := by
    have : (m : ℚ) * den ≤ num + den / 2 := by
      have := (le_div_iff₀ hpos).mp hlow
      linarith
    exact_mod_cast (by linarith : 2 * ((m : ℚ) * den) ≤ 2 * num + den)
  have hhigh' : 2 * num ≤ 2 * (m * den) + den := by
    have : (num : ℚ) ≤ m * den + den / 2 := by
      have := (div_le_iff₀ hpos).mp hhigh
      linarith
    exact_mod_cast (by linarith : 2 * (num : ℚ) ≤ 2 * (m * den) + den)
  have hties : m % 2 = 1 → 2 * (m * den) ≠ 2 * num + den ∧ 2 * num ≠ 2 * (m * den) + den := by
    intro hodd
    obtain ⟨hne, hne'⟩ := htie hodd
    constructor
    · intro heq
      refine hne ?_
      have : 2 * ((m : ℚ) * den) = 2 * num + den := by exact_mod_cast heq
      rw [eq_div_iff hpos.ne']
      linarith
    · intro heq
      refine hne' ?_
      have : 2 * (num : ℚ) = 2 * (m * den) + den := by exact_mod_cast heq
      rw [div_eq_iff hpos.ne']
      linarith
  have hsplit := Nat.div_add_mod num den
  have hrest := Nat.mod_lt num hden
  have hfloor : num / den = m ∨ num / den + 1 = m := by
    have hle : num / den ≤ m := by
      refine Nat.le_of_lt_succ ((Nat.div_lt_iff_lt_mul hden).mpr ?_)
      rw [Nat.succ_mul]
      omega
    have hge : m ≤ num / den + 1 := by
      refine Nat.le_of_lt_succ (Nat.lt_of_mul_lt_mul_right (a := den) ?_)
      have : (num / den + 1).succ * den = den * (num / den) + 2 * den := by
        rw [Nat.succ_eq_add_one]
        ring
      omega
    omega
  unfold roundQuotient
  dsimp only
  rcases hfloor with hfloor | hfloor
  · have hproduct : den * (num / den) = m * den := by rw [hfloor, Nat.mul_comm]
    split_ifs <;> omega
  · have hproduct : den * (num / den) + den = m * den := by
      rw [← hfloor]
      ring
    split_ifs <;> omega

/-! ### Finite numbers -/

variable {x : Binary64}

theorem magnitude_lt_of_isFinite (hx : x.isFinite = true) : x.magnitude < infiniteMagnitude :=
  of_decide_eq_true hx

/-- Subnormal numbers, and the others. -/
theorem magnitude_cases (x : Binary64) :
    x.magnitude < 2 ^ 52 ∧ x.significand = x.magnitude ∧ x.exponent = -1074 ∨
      2 ^ 52 ≤ x.magnitude ∧ x.significand = x.magnitude % 2 ^ 52 + 2 ^ 52 ∧
        x.exponent = (x.magnitude / 2 ^ 52 : Nat) - 1075 := by
  by_cases h : x.magnitude < 2 ^ 52
  · exact .inl ⟨h, (if_pos h).trans (Nat.mod_eq_of_lt h), if_pos h⟩
  · exact .inr ⟨not_lt.mp h, if_neg h, if_neg h⟩

/-- The significand and the exponent are the magnitude, counted from the first number of the binade. -/
theorem magnitude_eq (x : Binary64) : (x.exponent + 1074).toNat * 2 ^ 52 + x.significand = x.magnitude := by
  rcases magnitude_cases x with h | h <;> omega

theorem exponent_le (hx : x.isFinite = true) : x.exponent ≤ 971 := by
  have hlt := magnitude_lt_of_isFinite hx
  unfold infiniteMagnitude at hlt
  rcases magnitude_cases x with h | h <;> omega

theorem le_exponent (x : Binary64) : -1074 ≤ x.exponent := by
  rcases magnitude_cases x with h | h <;> omega

theorem significand_lt (x : Binary64) : x.significand < 2 ^ 53 := by
  rcases magnitude_cases x with h | h <;> omega

/-- The exponent of a subnormal number is the least one, and other numbers have all 53 bits. -/
theorem le_significand (hx : x.exponent ≠ -1074) : 2 ^ 52 ≤ x.significand := by
  rcases magnitude_cases x with h | h <;> omega

theorem significand_pos (hzero : x.isZero = false) : 0 < x.significand := by
  have hmagnitude : x.magnitude ≠ 0 := of_decide_eq_false hzero
  rcases magnitude_cases x with h | h <;> omega

/-- A quotient is rounded to the number of units in the last place that it is nearest to. -/
theorem unitCount_eq {num den m : Nat} (hden : 0 < den)
    (hlow : (m : ℚ) - 1 / 2 ≤ num / den / 2 ^ lastPlace num den)
    (hhigh : (num : ℚ) / den / 2 ^ lastPlace num den ≤ m + 1 / 2)
    (htie : m % 2 = 1 → (m : ℚ) - 1 / 2 ≠ num / den / 2 ^ lastPlace num den ∧
      (num : ℚ) / den / 2 ^ lastPlace num den ≠ m + 1 / 2) : unitCount num den = m := by
  refine roundQuotient_eq (Nat.mul_pos hden (twoTo_pos _)) ?_ ?_ ?_ <;> rwa [scaled_div]

end Binary64

namespace Decimal

/-! ### The interval of a number -/

/-- A rational lies in the interval. -/
structure Interval.Contains (i : Interval) (y : ℚ) : Prop where
  low : (i.low : ℚ) ≤ y
  high : y ≤ i.high
  ends : i.closed = false → (i.low : ℚ) ≠ y ∧ y ≠ i.high

theorem Interval.has_iff {i : Interval} {t s c : Nat} (ht : 0 < t) :
    i.has t s c = true ↔ i.Contains ((c * s : Nat) / (t : ℚ)) := by
  have ht' : (0 : ℚ) < t := by exact_mod_cast ht
  have hlow : (i.low : ℚ) ≤ (c * s : Nat) / (t : ℚ) ↔ i.low * t ≤ c * s := by
    rw [le_div_iff₀ ht']
    exact_mod_cast Iff.rfl
  have hhigh : ((c * s : Nat) / (t : ℚ) : ℚ) ≤ i.high ↔ c * s ≤ i.high * t := by
    rw [div_le_iff₀ ht']
    exact_mod_cast Iff.rfl
  have hlow' : (i.low : ℚ) = (c * s : Nat) / (t : ℚ) ↔ i.low * t = c * s := by
    rw [eq_div_iff ht'.ne']
    exact_mod_cast Iff.rfl
  have hhigh' : ((c * s : Nat) / (t : ℚ) : ℚ) = i.high ↔ c * s = i.high * t := by
    rw [div_eq_iff ht'.ne']
    exact_mod_cast Iff.rfl
  have hcontains : i.Contains ((c * s : Nat) / (t : ℚ)) ↔ i.low * t ≤ c * s ∧ c * s ≤ i.high * t ∧
      (i.closed = false → i.low * t ≠ c * s ∧ c * s ≠ i.high * t) := by
    rw [← hlow, ← hhigh]
    simp only [ne_eq, ← hlow', ← hhigh']
    exact ⟨fun h => ⟨h.low, h.high, h.ends⟩, fun h => ⟨h.1, h.2.1, h.2.2⟩⟩
  rw [hcontains]
  unfold Interval.has
  cases i.closed with
  | false =>
    simp only [Bool.false_eq_true, if_false, decide_eq_true_eq, true_implies]
    omega
  | true => simp

/-- A rational rounds to a finite number, by the interval of the number. -/
def RoundsTo (v : ℚ) (x : Binary64) : Prop :=
  (Interval.around x).Contains (v / 2 ^ (x.exponent - 2))

section

variable {x : Binary64} {v : ℚ}

theorem around_low (x : Binary64) : 4 * x.significand ≤ (Interval.around x).low + 2 := by
  unfold Interval.around
  dsimp only
  split_ifs <;> omega

/-- The step below a significand with more than one bit set is as long as the one above. -/
theorem around_low_of_wide (h : x.significand ≠ 2 ^ 52 ∨ x.exponent = -1074) (hpos : 0 < x.significand) :
    (Interval.around x).low + 2 = 4 * x.significand := by
  have hwide : ¬(x.significand == twoTo 52 && decide (-1074 < x.exponent)) = true := by
    simp only [Bool.and_eq_true, beq_iff_eq, decide_eq_true_eq, Binary64.twoTo_eq]
    omega
  unfold Interval.around
  dsimp only
  rw [if_neg hwide]
  omega

theorem around_low_of_narrow (h : x.significand = 2 ^ 52) (he : x.exponent ≠ -1074) :
    (Interval.around x).low + 1 = 4 * 2 ^ 52 := by
  have hnarrow : (x.significand == twoTo 52 && decide (-1074 < x.exponent)) = true := by
    have := x.le_exponent
    simp only [Bool.and_eq_true, beq_iff_eq, decide_eq_true_eq, Binary64.twoTo_eq]
    omega
  unfold Interval.around
  dsimp only
  rw [if_pos hnarrow, h]
  rfl

theorem around_high (x : Binary64) : (Interval.around x).high = 4 * x.significand + 2 := rfl

theorem around_closed (x : Binary64) : (Interval.around x).closed = decide (x.significand % 2 = 0) := rfl

/-- The numbers around a finite number are in its binade, but for those below the first number of a binade. -/
theorem RoundsTo.nearestMagnitude {num den : Nat} (hden : 0 < den) (hfinite : x.isFinite = true)
    (hzero : x.isZero = false) (h : RoundsTo ((num : ℚ) / den) x) :
    Binary64.nearestMagnitude num den = x.magnitude := by
  obtain ⟨m, hm⟩ : ∃ m, x.significand = m := ⟨_, rfl⟩
  obtain ⟨e, he⟩ : ∃ e, x.exponent = e := ⟨_, rfl⟩
  obtain ⟨v, hv⟩ : ∃ v : ℚ, (num : ℚ) / den = v := ⟨_, rfl⟩
  obtain ⟨y, hvy⟩ : ∃ y : ℚ, v = 2 ^ (e - 2) * y := ⟨v / 2 ^ (e - 2), (mul_div_cancel₀ _ (by positivity)).symm⟩
  have hy : (Interval.around x).Contains y := by
    have hquotient : v / 2 ^ (e - 2) = y := by rw [hvy, mul_div_cancel_left₀ _ (by positivity)]
    rwa [hv, RoundsTo, he, hquotient] at h
  have hlow : (4 : ℚ) * m ≤ y + 2 := by
    have hlow : (4 : ℚ) * m ≤ (Interval.around x).low + 2 := by exact_mod_cast hm ▸ around_low x
    linarith [hy.low]
  have hhigh : y ≤ 4 * m + 2 := by
    have hhigh : ((Interval.around x).high : ℚ) = 4 * m + 2 := by exact_mod_cast hm ▸ around_high x
    linarith [hy.high]
  have hm_pos : (1 : ℚ) ≤ m := by exact_mod_cast hm ▸ Binary64.significand_pos hzero
  have hm_lt : (m : ℚ) + 1 ≤ 9007199254740992 := by exact_mod_cast hm ▸ Binary64.significand_lt x
  have hv0 : 0 < v := hvy ▸ mul_pos (by positivity) (by linarith)
  have hnum : 0 < num := by
    rw [Nat.pos_iff_ne_zero]
    rintro rfl
    rw [← hv, Nat.cast_zero, zero_div] at hv0
    exact lt_irrefl _ hv0
  have hlog_le : ∀ j : ℤ, (2 : ℚ) ^ j ≤ y → e - 2 + j ≤ Binary64.floorLog2 num den := by
    intro j hj
    rw [Binary64.floorLog2_eq hnum hden, hv, ← Int.zpow_le_iff_le_log (by decide) hv0, hvy, Nat.cast_ofNat,
      zpow_add₀ (by norm_num)]
    exact mul_le_mul_of_nonneg_left hj (by positivity)
  have hlog_lt : ∀ j : ℤ, y < (2 : ℚ) ^ j → Binary64.floorLog2 num den < e - 2 + j := by
    intro j hj
    rw [Binary64.floorLog2_eq hnum hden, hv, ← Int.lt_zpow_iff_log_lt (by decide) hv0, hvy, Nat.cast_ofNat,
      zpow_add₀ (by norm_num)]
    exact mul_lt_mul_of_pos_left hj (by positivity)
  have hunits : ∀ k : ℤ, (num : ℚ) / den / 2 ^ (e - k) = y / 2 ^ (2 - k) := by
    intro k
    rw [hv, hvy, div_eq_div_iff (by positivity) (by positivity), mul_assoc, mul_left_comm, ← zpow_add₀ (by norm_num),
      sub_add_sub_cancel]
  have hbound := Binary64.magnitude_lt_of_isFinite hfinite
  have hmagnitude := Binary64.magnitude_eq x
  have hleast := Binary64.le_exponent x
  rw [hm, he] at hmagnitude
  rw [he] at hleast
  have htop := hlog_lt 55 (by norm_num; linarith)
  rw [Binary64.nearestMagnitude_eq hnum]
  by_cases hbinade : (2 : ℚ) ^ (54 : ℤ) ≤ y ∨ e = -1074
  · have hplace : Binary64.lastPlace num den = e - 0 := by
      unfold Binary64.lastPlace
      rcases hbinade with hbinade | hbinade
      · have := hlog_le 54 hbinade
        omega
      · omega
    have hcount : Binary64.unitCount num den = m := by
      refine Binary64.unitCount_eq hden ?_ ?_ ?_ <;> rw [hplace, hunits 0]
      · norm_num
        linarith
      · norm_num
        linarith
      · intro hodd
        have hopen : (Interval.around x).closed = false := by
          rw [around_closed, hm, hodd]
          rfl
        have hlow_eq : ((Interval.around x).low : ℚ) + 2 = 4 * m := by
          exact_mod_cast hm ▸ around_low_of_wide (.inl (by omega)) (Binary64.significand_pos hzero)
        have hhigh_eq : ((Interval.around x).high : ℚ) = 4 * m + 2 := by exact_mod_cast hm ▸ around_high x
        obtain ⟨hne, hne'⟩ := hy.ends hopen
        constructor
        · intro heq
          norm_num at heq
          exact hne (by linarith)
        · intro heq
          norm_num at heq
          exact hne' (by linarith)
    rw [hcount, hplace, sub_zero, hmagnitude]
    exact min_eq_left hbound.le
  · push Not at hbinade
    obtain ⟨hbelow, hnormal⟩ := hbinade
    norm_num at hbelow
    have hfirst : m = 2 ^ 52 := by
      have hfull := Binary64.le_significand (he ▸ hnormal)
      have : (m : ℚ) < 4503599627370497 := by linarith
      have : m < 4503599627370497 := by exact_mod_cast this
      omega
    have hnarrow : (18014398509481984 : ℚ) ≤ y + 1 := by
      have := around_low_of_narrow (hm.trans hfirst) (he ▸ hnormal)
      have : ((Interval.around x).low : ℚ) + 1 = 18014398509481984 := by exact_mod_cast this
      linarith [hy.low]
    have hplace : Binary64.lastPlace num den = e - 1 := by
      have hle := hlog_le 53 (by norm_num; linarith)
      have hlt := hlog_lt 54 (by norm_num; linarith)
      unfold Binary64.lastPlace
      omega
    have hcount : Binary64.unitCount num den = 2 ^ 53 := by
      refine Binary64.unitCount_eq hden ?_ ?_ ?_ <;> rw [hplace, hunits 1]
      · norm_num
        linarith
      · norm_num
        linarith
      · intro hodd
        exact absurd hodd (by decide)
    have hsum : (e - 1 + 1074).toNat * 2 ^ 52 + 2 ^ 53 = x.magnitude := by
      have hstep : (e + 1074).toNat = (e - 1 + 1074).toNat + 1 := by omega
      rw [← hmagnitude, hfirst, hstep]
      ring
    rw [hcount, hplace, hsum]
    exact min_eq_left hbound.le

/-- What rounds to a finite number other than zero is in the range of these numbers. -/
theorem RoundsTo.range (hfinite : x.isFinite = true) (hzero : x.isZero = false) (h : RoundsTo v x) :
    (2 : ℚ) ^ (-1075 : ℤ) ≤ v ∧ v < 2 ^ (1024 : ℤ) := by
  have hpos : (1 : ℚ) ≤ x.significand := by exact_mod_cast Binary64.significand_pos hzero
  have hlt : (x.significand : ℚ) + 1 ≤ 9007199254740992 := by exact_mod_cast Binary64.significand_lt x
  have hlow : (4 : ℚ) * x.significand ≤ (Interval.around x).low + 2 := by exact_mod_cast around_low x
  have hhigh : ((Interval.around x).high : ℚ) = 4 * x.significand + 2 := by exact_mod_cast around_high x
  have hleast := Binary64.le_exponent x
  have hgreatest := Binary64.exponent_le hfinite
  have hunit : (0 : ℚ) < 2 ^ (x.exponent - 2) := by positivity
  constructor
  · have htwo : (2 : ℚ) ≤ v / 2 ^ (x.exponent - 2) := by linarith [h.low]
    calc (2 : ℚ) ^ (-1075 : ℤ) ≤ 2 ^ (x.exponent - 1) := zpow_le_zpow_right₀ (by norm_num) (by omega)
      _ = 2 * 2 ^ (x.exponent - 2) := by
        rw [show x.exponent - 1 = 1 + (x.exponent - 2) by ring, zpow_add₀ (by norm_num), zpow_one]
      _ ≤ v := (le_div_iff₀ hunit).mp htwo
  · have hless : v / 2 ^ (x.exponent - 2) < 2 ^ (55 : ℤ) := by
      norm_num
      linarith [h.high]
    calc v < 2 ^ (55 : ℤ) * 2 ^ (x.exponent - 2) := (div_lt_iff₀ hunit).mp hless
      _ = 2 ^ (55 + (x.exponent - 2)) := (zpow_add₀ (by norm_num) _ _).symm
      _ ≤ 2 ^ (1024 : ℤ) := zpow_le_zpow_right₀ (by norm_num) (by omega)

end

/-! ### Powers of ten -/

theorem tenTo_eq (n : Nat) : tenTo n = 10 ^ n := rfl

theorem tenTo_pos (n : Nat) : 0 < tenTo n := Nat.pow_pos (by decide)

/-- A power of ten as a quotient of natural numbers. -/
theorem ten_zpow_eq (k : ℤ) : (10 : ℚ) ^ k = (tenTo k.toNat : ℚ) / (tenTo (-k).toNat : ℚ) := by
  simp only [tenTo_eq, Nat.cast_pow, Nat.cast_ofNat]
  rcases le_total 0 k with hk | hk
  · rw [Int.toNat_of_nonpos (Int.neg_nonpos_of_nonneg hk), pow_zero, div_one, ← zpow_natCast,
      Int.toNat_of_nonneg hk]
  · rw [Int.toNat_of_nonpos hk, pow_zero, one_div, ← zpow_natCast,
      Int.toNat_of_nonneg (Int.neg_nonneg_of_nonpos hk), zpow_neg, inv_inv]

theorem two_zpow_le_ten_zpow {k j : ℤ} (hj : 0 ≤ j) (h : k ≤ 3 * j) : (2 : ℚ) ^ k ≤ 10 ^ j :=
  calc (2 : ℚ) ^ k ≤ 2 ^ (3 * j) := zpow_le_zpow_right₀ (by norm_num) h
    _ = 8 ^ j := by
      rw [zpow_mul]
      norm_num
    _ ≤ 10 ^ j := zpow_le_zpow_left₀ hj (by norm_num) (by norm_num)

/-- The rational that digits and a power of ten stand for. -/
def value (d : Decimal) : ℚ :=
  d.digits * 10 ^ d.exponent

variable {x : Binary64} {d : Decimal}

/-- A decimal that rounds to a number is read as it, without leaving the range that powers are formed in. -/
theorem RoundsTo.ofDecimal (hfinite : x.isFinite = true) (hzero : x.isZero = false) (h : RoundsTo d.value x)
    (negative : Bool) :
    Binary64.ofDecimal negative d.digits d.exponent = Binary64.ofMagnitude negative x.magnitude := by
  obtain ⟨hlow, hhigh⟩ := h.range hfinite hzero
  have hdigits : d.digits ≠ 0 := by
    intro hnone
    have hpos : (0 : ℚ) < 2 ^ (-1075 : ℤ) := by positivity
    rw [value, hnone, Nat.cast_zero, zero_mul] at hlow
    exact absurd hlow (not_le.mpr hpos)
  have hsmall : ¬400 < d.exponent := by
    intro hlarge
    refine absurd hhigh (not_lt.mpr ?_)
    have hone : (1 : ℚ) ≤ d.digits := by exact_mod_cast Nat.pos_of_ne_zero hdigits
    calc (2 : ℚ) ^ (1024 : ℤ) ≤ 10 ^ (401 : ℤ) := two_zpow_le_ten_zpow (by decide) (by decide)
      _ ≤ 10 ^ d.exponent := zpow_le_zpow_right₀ (by norm_num) (by omega)
      _ ≤ d.value := le_mul_of_one_le_left (by positivity) hone
  have hlarge : ¬(d.digits.log2 : Int) + 1 + d.exponent < -400 := by
    intro hsmall
    refine absurd hlow (not_le.mpr ?_)
    have hdigits_lt : (d.digits : ℚ) < 10 ^ (d.digits.log2 + 1 : ℤ) :=
      calc (d.digits : ℚ) < 2 ^ (d.digits.log2 + 1 : ℤ) := by exact_mod_cast Nat.lt_log2_self
        _ ≤ 10 ^ (d.digits.log2 + 1 : ℤ) := zpow_le_zpow_left₀ (by positivity) (by norm_num) (by norm_num)
    calc d.value < 10 ^ (d.digits.log2 + 1 : ℤ) * 10 ^ d.exponent :=
          mul_lt_mul_of_pos_right hdigits_lt (by positivity)
      _ = 10 ^ ((d.digits.log2 : ℤ) + 1 + d.exponent) := (zpow_add₀ (by norm_num) _ _).symm
      _ ≤ 10 ^ (-401 : ℤ) := zpow_le_zpow_right₀ (by norm_num) (by omega)
      _ ≤ 2 ^ (-1075 : ℤ) := by
        rw [zpow_neg, zpow_neg]
        exact inv_anti₀ (by positivity) (two_zpow_le_ten_zpow (by decide) (by decide))
  have hquotient : ((d.digits * tenTo d.exponent.toNat : Nat) : ℚ) / (tenTo (-d.exponent).toNat : Nat) = d.value := by
    rw [value, ten_zpow_eq, Nat.cast_mul, mul_div_assoc]
  unfold Binary64.ofDecimal
  rw [if_neg hdigits, if_neg hsmall, if_neg hlarge,
    RoundsTo.nearestMagnitude (tenTo_pos _) hfinite hzero (hquotient ▸ h)]

end Decimal

end LoxLang
